import Mathlib.Data.List.Basic
import Mathlib.Tactic.Common
import GoTree.Proofs.Tree.Address
import GoTree.Tree.Dump

/-!
# Dumps have one line for each node

A quoted text has no line breaks, since it has escapes in their places, and tags and numbers have
none either.  So a dump breaks its lines only behind the nodes, unless a label does, and its lines
are those of the nodes in the order of the traversal, indented by their depth.

## Main results

* `Quoted.notMem_quote`: a quoted text is on one line
* `Node.dumpLines_eq`, `Node.splitOn_dump`: the lines of a dump
* `Node.traversals_agree`: walks, leaves and dumps follow the recursive traversal
-/

namespace GoTree

/-! ### Quoted texts -/

namespace Quoted

variable {x : Char}

/-- The digits of a number are on one line, in any base. -/
theorem notMem_toDigits (hx : x = '\n' ∨ x = '\r') {b : Nat} (hb : 1 < b) (n : Nat) :
    x ∉ Nat.toDigits b n := by
  have hdigit (m : Nat) : x ≠ Nat.digitChar m := by
    rcases hx with rfl | rfl
    · exact (Nat.digitChar_ne '\n' rfl).symm
    · exact (Nat.digitChar_ne '\r' rfl).symm
  induction n using Nat.strongRecOn with
  | ind n ih =>
    by_cases hlt : n < b
    · rw [Nat.toDigits_of_lt_base hlt, List.mem_singleton]
      exact hdigit n
    · have hle : b ≤ n := Nat.not_lt.1 hlt
      rw [Nat.toDigits_of_base_le hb hle, List.mem_append, List.mem_singleton, not_or]
      exact ⟨ih (n / b) (Nat.div_lt_self (by omega) hb), hdigit (n % b)⟩

/-- **A character inside quotes** is on one line, since line breaks are escaped. -/
theorem notMem_escape (hx : x = '\n' ∨ x = '\r') (c : Char) : x ∉ escape c := by
  have hcode : x ∉ codePoint c := by
    have hends : x ∉ ['\\', 'u', '\x7b'] ∧ x ∉ ['\x7d'] := by
      rcases hx with rfl | rfl <;> decide
    rw [codePoint, List.mem_append, List.mem_append, not_or, not_or]
    exact ⟨⟨hends.1, notMem_toDigits hx (by decide) _⟩, hends.2⟩
  unfold escape
  split_ifs with _ _ hfeed hreturn
  case neg =>
    rw [List.mem_singleton]
    rcases hx with rfl | rfl
    · exact Ne.symm hfeed
    · exact Ne.symm hreturn
  pick_goal 7
  · exact hcode
  all_goals rcases hx with rfl | rfl <;> decide

/-- **A quoted text is on one line**, whatever the text. -/
theorem notMem_quote (hx : x = '\n' ∨ x = '\r') (s : String) : x ∉ (quote s).toList := by
  have hquote : x ≠ '\x22' := by
    rcases hx with rfl | rfl <;> decide
  simp [quote, hquote, notMem_escape hx]

end Quoted

/-! ### Lines -/

/-- Texts that each end in a line feed of their own are the lines of the whole. -/
theorem splitOn_flatMap_newline {lines : List (List Char)} (h : ∀ line ∈ lines, '\n' ∉ line) :
    (lines.flatMap (· ++ ['\n'])).splitOn '\n' = lines ++ [[]] := by
  have hjoin : lines.flatMap (· ++ ['\n']) = ['\n'].intercalate (lines ++ [[]]) := by
    clear h
    induction lines with
    | nil => rfl
    | cons line lines ih =>
      rw [List.flatMap_cons, ih, List.cons_append]
      obtain ⟨first, rest, hcons⟩ : ∃ first rest, lines ++ [[]] = first :: rest :=
        List.exists_cons_of_ne_nil (by simp)
      rw [hcons, List.intercalate_cons_cons]
  rw [hjoin]
  refine List.splitOn_intercalate '\n' ?_ (by simp)
  rw [List.forall_mem_append]
  exact ⟨h, by simp⟩

namespace Node

/-- The line of a node is the line at the top of a tree, indented by two spaces a level. -/
theorem toList_dumpLine (depth : Nat) (node : Node) :
    (node.dumpLine depth).toList =
      List.replicate (2 * depth) ' ' ++ (node.dumpLine 0).toList := by
  simp [dumpLine]

theorem head?_dumpLine (node : Node) : (node.dumpLine 0).toList.head? = some '[' := by
  simp [dumpLine]

/-- What is not among the characters that make up a string is not in the string.  Names are checked
this way without being encoded and decoded. -/
theorem notMem_toList_ofList {c : Char} {list : List Char} (h : c ∉ list) :
    c ∉ (String.ofList list).toList := by
  rwa [String.toList_ofList]

theorem newline_notMem_tagNames (node : Node) : '\n' ∉ node.tagNames.toList := by
  have hnames : ∀ tag : Tag, '\n' ∉ tag.name.toList := by
    intro tag
    cases tag <;> exact notMem_toList_ofList (by decide)
  rw [tagNames, String.toList_intercalate]
  induction node.tags with
  | nil => simp
  | cons tag tags ih =>
    cases tags with
    | nil => simpa using hnames tag
    | cons next tags =>
      simp only [List.map_cons] at ih ⊢
      rw [List.intercalate_cons_cons, List.mem_append, List.mem_append, not_or, not_or]
      exact ⟨⟨hnames tag, by decide⟩, ih⟩

/-- **The line of a node** is one line, unless its label has line feeds. -/
theorem newline_notMem_dumpLine (depth : Nat) {node : Node} (h : '\n' ∉ node.label.toList) :
    '\n' ∉ (node.dumpLine depth).toList := by
  have htags := node.newline_notMem_tagNames
  have hlabel : '\n' ∉ (if node.label = "" then "" else " " ++ node.label).toList := by
    split
    · decide
    · simpa using h
  have hnumber (n : Nat) : '\n' ∉ Nat.toDigits 10 n :=
    Quoted.notMem_toDigits (.inl rfl) (by decide) n
  unfold dumpLine
  cases node.token with
  | none => simp [htags, hlabel]
  | some token =>
    have hquote := Quoted.notMem_quote (x := '\n') (.inl rfl) token.value
    simp [htags, hlabel, hquote, hnumber]

mutual

/-- **The lines of a dump** are those of the nodes in order, each as deep as its address is long. -/
theorem dumpLines_eq (depth : Nat) : (node : Node) →
    node.dumpLines depth =
      node.located.map fun entry => entry.2.dumpLine (depth + entry.1.length)
  | ⟨tags, token, label, children, start, stop⟩ => by
    rw [dumpLines, located, List.map_cons, dumpLinesAll_eq depth 0 children, List.length_nil,
      Nat.add_zero]

theorem dumpLinesAll_eq (depth i : Nat) : (nodes : List Node) →
    dumpLinesAll (depth + 1) nodes =
      (locatedFrom i nodes).map fun entry => entry.2.dumpLine (depth + entry.1.length)
  | [] => rfl
  | node :: rest => by
    -- an address below a child is longer by one than the address in the child
    have hdeeper : (fun entry : List Nat × Node => entry.2.dumpLine (depth + entry.1.length)) ∘
        Prod.map (i :: ·) id = fun entry => entry.2.dumpLine (depth + 1 + entry.1.length) := by
      funext entry
      rw [Function.comp_apply, Prod.map_snd, Prod.map_fst, id_eq, List.length_cons, Nat.add_assoc,
        Nat.add_comm 1]
    rw [dumpLinesAll, locatedFrom, List.map_append, List.map_map, hdeeper,
      dumpLines_eq (depth + 1) node, dumpLinesAll_eq depth (i + 1) rest]

end

/-- **A dump breaks its lines behind its nodes only**, unless a label does. -/
theorem splitOn_dump {node : Node} (h : ∀ inner ∈ node.preorder, '\n' ∉ inner.label.toList) :
    node.dump.toList.splitOn '\n' =
      (node.located.map fun entry => List.replicate (2 * entry.1.length) ' ' ++
        (entry.2.dumpLine 0).toList) ++ [[]] := by
  have hlines : node.dump.toList = (node.located.map fun entry =>
      List.replicate (2 * entry.1.length) ' ' ++ (entry.2.dumpLine 0).toList).flatMap
        (· ++ ['\n']) := by
    rw [dump, dumpLines_eq, String.toList_join, List.flatMap_map, List.flatMap_map,
      List.flatMap_map]
    refine List.flatMap_congr fun entry _ => ?_
    rw [String.toList_append, toList_dumpLine, Nat.zero_add]
    rfl
  rw [hlines]
  refine splitOn_flatMap_newline fun line hline => ?_
  obtain ⟨entry, hentry, rfl⟩ := List.mem_map.1 hline
  rw [← toList_dumpLine]
  refine newline_notMem_dumpLine _ (h entry.2 ?_)
  rw [← map_snd_located]
  exact List.mem_map_of_mem hentry

/-- **Walks, leaves and dumps follow the recursive traversal**, which meets every node of the tree
once, in the order of the addresses.  The calls of a walk hand out its nodes one after the other and
then nothing, and so does the walk over a worklist; the leaves are its nodes without children.  A
quoted text has no line breaks, so if no label has line feeds, a dump has one line for each of its
nodes, indented by two spaces for each level above the node, and nothing behind the last line
feed. -/
theorem traversals_agree (node : Node) :
    node.Enumerates node.located ∧ node.preorder = node.located.map Prod.snd ∧
    (∀ n, ((Descendants.ofNode node).pull n).1 =
      (node.preorder.map some).take n ++ List.replicate (n - node.preorder.length) none) ∧
    node.descendants = node.preorder ∧
    node.leaves = node.preorder.filter (fun inner => inner.children.isEmpty) ∧
    (∀ text, '\n' ∉ (Quoted.quote text).toList ∧ '\r' ∉ (Quoted.quote text).toList) ∧
    (∀ inner : Node, (inner.dumpLine 0).toList.head? = some '[') ∧
    ((∀ inner ∈ node.preorder, '\n' ∉ inner.label.toList) →
      node.dump.toList.splitOn '\n' =
        (node.located.map fun entry => List.replicate (2 * entry.1.length) ' ' ++
          (entry.2.dumpLine 0).toList) ++ [[]]) := by
  refine ⟨node.enumerates_located, node.map_snd_located.symm, fun n => ?_,
    node.descendants_eq_preorder, node.leaves_eq,
    fun text => ⟨Quoted.notMem_quote (.inl rfl) text, Quoted.notMem_quote (.inr rfl) text⟩,
    head?_dumpLine, splitOn_dump⟩
  rw [((Descendants.ofNode node).pull_eq n).1, Descendants.ahead_ofNode]

/-- A comment over two lines beside a group. -/
theorem traversals_agree_nested :
    ∃ comment group node : Node, comment = .leaf [.comment] "" ⟨"/*\r\n*/", 1, 1⟩ 0 6 ∧
      group = ⟨[.package], none, "File.Package",
        [.leaf [.keyword] "" ⟨"package", 3, 1⟩ 7 14], 7, 14⟩ ∧
      node = ⟨[.compilationUnit], none, "(File)", [comment, group], 0, 14⟩ ∧
      (∀ inner ∈ node.preorder, '\n' ∉ inner.label.toList) ∧
      node.dump.toList.splitOn '\n' =
        ["[COMPILATION_UNIT] (File)".toList, "  [COMMENT] \"/*\\r\\n*/\" 1:1".toList,
          "  [PACKAGE] File.Package".toList, "    [KEYWORD] \"package\" 3:1".toList, []] := by
  refine ⟨_, _, _, rfl, rfl, rfl, ?_⟩
  generalize hnode : (⟨[.compilationUnit], none, "(File)",
    [.leaf [.comment] "" ⟨"/*\r\n*/", 1, 1⟩ 0 6, ⟨[.package], none, "File.Package",
      [.leaf [.keyword] "" ⟨"package", 3, 1⟩ 7 14], 7, 14⟩], 0, 14⟩ : Node) = node
  have hlabels : ∀ inner ∈ node.preorder, '\n' ∉ inner.label.toList := by
    subst hnode
    decide
  obtain ⟨-, -, -, -, -, -, -, hdump⟩ := traversals_agree node
  refine ⟨hlabels, (hdump hlabels).trans ?_⟩
  subst hnode
  decide +kernel

end Node

end GoTree
