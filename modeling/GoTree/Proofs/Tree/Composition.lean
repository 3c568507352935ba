import Mathlib.Data.List.Chain
import Mathlib.Tactic.Common
import GoTree.Proofs.Text.Bytes
import GoTree.Proofs.Tree.Traversal

/-!
# Composed trees

The shape every tree of the mapping has: leaves that hold the text they span, and groups whose
children follow one another with only blanks between them.  What happens between neighbouring
children then happens between neighbouring leaves, because a group starts with its first leaf and
stops with its last.

## Main definitions

* `Node.IsSlice`: a leaf that holds the text it spans
* `Fills`: nodes that follow one another from one offset to another, up to blanks
* `Node.Composed`: trees of such groups over given leaves

## Main results

* `Node.Composed.fills`: the leaves of a composed tree fill its span
* `Node.Composed.of_mem_preorder`: the nodes of a composed tree are composed
-/

namespace GoTree

/-- A leaf that holds the text it spans and the position of its first character. -/
structure Node.IsSlice (t : Text) (node : Node) : Prop where
  isLeaf : node.isLeaf = true
  holds : ∃ value p, t.slice? node.start node.stop = some value ∧
    t.lineColumn? node.start = some p ∧ node.token = some ⟨String.ofList value, p.line, p.column⟩

theorem Node.IsSlice.isBoundary {t : Text} {node : Node} (h : node.IsSlice t) :
    t.IsBoundary node.start ∧ t.IsBoundary node.stop := by
  obtain ⟨-, value, p, hvalue, -, -⟩ := h
  exact Text.isBoundary_of_slice? hvalue

theorem Node.IsSlice.start_le_stop {t : Text} {node : Node} (h : node.IsSlice t) :
    node.start ≤ node.stop := by
  obtain ⟨-, value, p, hvalue, -, -⟩ := h
  exact Text.le_of_slice? hvalue

/-- The text of such a leaf is the slice it spans. -/
theorem Node.IsSlice.slice? {t : Text} {node : Node} (h : node.IsSlice t) :
    t.slice? node.start node.stop = some node.value.toList := by
  obtain ⟨-, value, p, hvalue, -, htoken⟩ := h
  simp [Node.value, htoken, hvalue]

/-! ### Filling a stretch of text -/

/-- **Nodes that fill the bytes from `start` to `stop`:** each follows the one before it with only
blanks between them. -/
def Fills (t : Text) : (start : Nat) → List Node → (stop : Nat) → Prop
  | start, [], stop => t.BlankBetween start stop
  | start, node :: rest, stop => t.BlankBetween start node.start ∧ Fills t node.stop rest stop

namespace Fills

variable {t : Text}

theorem widen {start middle stop : Nat} {nodes : List Node} (h : t.BlankBetween start middle)
    (hfills : Fills t middle nodes stop) : Fills t start nodes stop := by
  cases nodes with
  | nil => exact h.trans hfills
  | cons node rest => exact ⟨h.trans hfills.1, hfills.2⟩

/-- Two stretches filled one after the other are filled together. -/
theorem append {start middle stop : Nat} {nodes rest : List Node} (h : Fills t start nodes middle)
    (hrest : Fills t middle rest stop) : Fills t start (nodes ++ rest) stop := by
  induction nodes generalizing start with
  | nil => exact widen h hrest
  | cons node nodes ih => exact ⟨h.1, ih h.2⟩

theorem singleton {node : Node} (h : node.IsSlice t) : Fills t node.start [node] node.stop :=
  ⟨Text.blankBetween_self h.isBoundary.1, Text.blankBetween_self h.isBoundary.2⟩

/-- A filled stretch stops after it starts. -/
theorem start_le_stop {start stop : Nat} {nodes : List Node} (h : Fills t start nodes stop)
    (hnodes : ∀ node ∈ nodes, node.start ≤ node.stop) : start ≤ stop := by
  induction nodes generalizing start with
  | nil => exact h.le
  | cons node nodes ih =>
    calc start ≤ node.start := h.1.le
      _ ≤ node.stop := hnodes node (by simp)
      _ ≤ stop := ih h.2 fun other hother => hnodes other (by simp [hother])

/-- Nodes that fill a stretch fill it up to where the last of them stops. -/
theorem to_last {start stop : Nat} {nodes : List Node} {last : Node}
    (h : Fills t start (nodes ++ [last]) stop) (hlast : t.IsBoundary last.stop) :
    Fills t start (nodes ++ [last]) last.stop := by
  induction nodes generalizing start with
  | nil => exact ⟨h.1, Text.blankBetween_self hlast⟩
  | cons node nodes ih => exact ⟨h.1, ih h.2⟩

/-- Only blanks stand after the last node. -/
theorem blankBetween_last {start stop : Nat} {nodes : List Node} {last : Node}
    (h : Fills t start nodes stop) (hlast : nodes.getLast? = some last) :
    t.BlankBetween last.stop stop := by
  obtain ⟨before, rfl⟩ := List.getLast?_eq_some_iff.1 hlast
  clear hlast
  induction before generalizing start with
  | nil => exact h.2
  | cons node before ih => exact ih h.2

/-- Only blanks stand between two neighbours. -/
theorem blankBetween {start stop : Nat} {before after : List Node} {a b : Node}
    (h : Fills t start (before ++ a :: b :: after) stop) : t.BlankBetween a.stop b.start := by
  induction before generalizing start with
  | nil => exact h.2.1
  | cons node before ih => exact ih h.2

/-- **A filled stretch is read back** from its nodes, each after some blanks. -/
theorem exists_blanks {start : Nat} {nodes : List Node} {last : Node}
    (h : Fills t start (nodes ++ [last]) last.stop)
    (hslice : ∀ node ∈ nodes ++ [last], node.IsSlice t) :
    ∃ blanks : List Text, blanks.length = (nodes ++ [last]).length ∧
      (∀ blank ∈ blanks, blank.Blank) ∧
      t.slice? start last.stop = some
        (List.zipWith (fun blank node => blank ++ node.value.toList) blanks
          (nodes ++ [last])).flatten := by
  induction nodes generalizing start with
  | nil =>
    obtain ⟨blank, hblank, hx⟩ := h.1
    have hvalue := (hslice last (by simp)).slice?
    refine ⟨[blank], rfl, by simpa using hx, ?_⟩
    simpa using Text.slice?_append hblank hvalue
  | cons node nodes ih =>
    obtain ⟨blank, hblank, hx⟩ := h.1
    have hvalue := (hslice node (by simp)).slice?
    obtain ⟨blanks, hlength, hblanks, hrest⟩ :=
      ih h.2 fun other hother => hslice other (List.mem_cons_of_mem node hother)
    refine ⟨blank :: blanks, by simpa using hlength, by simpa using ⟨hx, hblanks⟩, ?_⟩
    have hfront := Text.slice?_append (Text.slice?_append hblank hvalue) hrest
    simpa using hfront

/-- **What is no blank lies in one of the nodes** that fill a stretch. -/
theorem exists_mem_of_slice? {start stop offset stop' : Nat} {nodes : List Node} {x : Text} {c : Char}
    (h : Fills t start nodes stop) (hle : start ≤ offset) (hlt : offset < stop)
    (hx : t.slice? offset stop' = some x) (hc : x.head? = some c) (hblank : 0x20 < c.toNat) :
    ∃ node ∈ nodes, node.start ≤ offset ∧ offset < node.stop := by
  induction nodes generalizing start with
  | nil =>
    have hle' := Text.BlankBetween.blank_of_slice? h hle hlt hx hc
    omega
  | cons node nodes ih =>
    by_cases hbefore : offset < node.start
    · have hle' := h.1.blank_of_slice? hle hbefore hx hc
      omega
    · by_cases hafter : node.stop ≤ offset
      · obtain ⟨other, hother, hin⟩ := ih h.2 hafter
        exact ⟨other, List.mem_cons_of_mem _ hother, hin⟩
      · exact ⟨node, List.mem_cons_self .., Nat.not_lt.1 hbefore, Nat.not_le.1 hafter⟩

/-- Nodes that fill a stretch lie in it, one after the other. -/
theorem pairwise {start stop : Nat} {nodes : List Node} (h : Fills t start nodes stop)
    (hnodes : ∀ node ∈ nodes, node.start ≤ node.stop) :
    (∀ node ∈ nodes, start ≤ node.start) ∧ nodes.Pairwise fun a b => a.stop ≤ b.start := by
  induction nodes generalizing start with
  | nil => exact ⟨by simp, .nil⟩
  | cons node nodes ih =>
    rw [List.forall_mem_cons] at hnodes
    obtain ⟨hafter, hpairwise⟩ := ih h.2 hnodes.2
    refine ⟨List.forall_mem_cons.2 ⟨h.1.le, ?_⟩, .cons hafter hpairwise⟩
    intro other hother
    exact h.1.le.trans (hnodes.1.trans (hafter other hother))

/-- Nodes that fill a stretch follow one another. -/
theorem isChain {start stop : Nat} {nodes : List Node} (h : Fills t start nodes stop) :
    nodes.IsChain fun a b => t.BlankBetween a.stop b.start := by
  induction nodes generalizing start with
  | nil => exact .nil
  | cons a nodes ih =>
    cases nodes with
    | nil => exact .singleton a
    | cons b rest => exact List.isChain_cons_cons.2 ⟨h.2.1, ih h.2⟩

/-- A node that stands where a filled stretch stops continues it. -/
theorem isChain_concat {start : Nat} {nodes : List Node} {node : Node}
    (h : Fills t start nodes node.start) :
    (∀ first ∈ (nodes ++ [node]).head?, t.BlankBetween start first.start) ∧
      (nodes ++ [node]).IsChain fun a b => t.BlankBetween a.stop b.start := by
  induction nodes generalizing start with
  | nil => exact ⟨by simpa [Fills] using h, .singleton node⟩
  | cons a nodes ih =>
    obtain ⟨hfirst, hchain⟩ := ih h.2
    refine ⟨by simpa using h.1, ?_⟩
    rw [List.cons_append, List.isChain_cons]
    exact ⟨hfirst, hchain⟩

/-- **Neighbours, a filled stretch after the last of them, and the node at its end** are neighbours
again. -/
theorem isChain_append {before nodes : List Node} {last node : Node}
    (hlast : before.getLast? = some last)
    (hbefore : before.IsChain fun a b => t.BlankBetween a.stop b.start)
    (h : Fills t last.stop nodes node.start) :
    (before ++ nodes ++ [node]).IsChain fun a b => t.BlankBetween a.stop b.start := by
  obtain ⟨hfirst, hchain⟩ := h.isChain_concat
  rw [List.append_assoc, List.isChain_append]
  refine ⟨hbefore, hchain, ?_⟩
  intro a ha b hb
  rw [hlast, Option.mem_some_iff] at ha
  exact ha ▸ hfirst b hb

end Fills

/-! ### Trees -/

/-- **A tree over leaves that satisfy `Part`**, in which a group spans from its first to its last
child and the children of a group have only blanks between them. -/
inductive Node.Composed (t : Text) (Part : Node → Prop) : Node → Prop
  | leaf {node : Node} (part : Part node) : Composed t Part node
  | group {tags : List Tag} {label : String} {children : List Node} {first last : Node}
      (head : children.head? = some first) (final : children.getLast? = some last)
      (composed : ∀ child ∈ children, Composed t Part child)
      (chain : children.IsChain fun a b => t.BlankBetween a.stop b.start) :
      Composed t Part ⟨tags, none, label, children, first.start, last.stop⟩

/-- Children that may stand in a group. -/
structure Siblings (t : Text) (Part : Node → Prop) (children : List Node) : Prop where
  composed : ∀ child ∈ children, child.Composed t Part
  chain : children.IsChain fun a b => t.BlankBetween a.stop b.start

theorem Siblings.singleton {t : Text} {Part : Node → Prop} {child : Node}
    (h : child.Composed t Part) : Siblings t Part [child] :=
  ⟨by simpa using h, .singleton child⟩

/-- Children after leaves and one more child may stand in a group. -/
theorem Siblings.append {t : Text} {Part : Node → Prop} {children gap : List Node} {child : Node}
    (h : Siblings t Part children) (hgap : ∀ node ∈ gap, Part node)
    (hchild : child.Composed t Part)
    (hchain : (children ++ gap ++ [child]).IsChain fun a b => t.BlankBetween a.stop b.start) :
    Siblings t Part (children ++ gap ++ [child]) := by
  refine ⟨?_, hchain⟩
  intro node hnode
  rw [List.append_assoc, List.mem_append, List.mem_append, List.mem_singleton] at hnode
  rcases hnode with hnode | hnode | rfl
  · exact h.composed node hnode
  · exact .leaf (hgap node hnode)
  · exact hchild

namespace Node.Composed

variable {t : Text} {Part : Node → Prop}

/-- If every child's leaves fill its span, the leaves of all children fill the span of the
children. -/
theorem fills_children {children : List Node} {first last : Node}
    (hfills : ∀ child ∈ children, Fills t child.start child.leaves child.stop)
    (hchain : children.IsChain fun a b => t.BlankBetween a.stop b.start)
    (hfirst : children.head? = some first) (hlast : children.getLast? = some last) :
    Fills t first.start (children.flatMap leaves) last.stop := by
  induction children generalizing first with
  | nil => simp at hfirst
  | cons a rest ih =>
    obtain rfl : a = first := by simpa using hfirst
    have ha := hfills a (by simp)
    cases rest with
    | nil =>
      obtain rfl : a = last := by simpa using hlast
      simpa using ha
    | cons b rest =>
      obtain ⟨hab, hchain⟩ := List.isChain_cons_cons.1 hchain
      have hrest := ih (fun child hchild => hfills child (by simp [hchild])) hchain
        (show (b :: rest).head? = some b from rfl) (by simpa using hlast)
      rw [List.flatMap_cons]
      exact ha.append (hrest.widen hab)

/-- A tree over some leaves is one over any leaves that include them. -/
theorem mono {Part' : Node → Prop} (hmono : ∀ node, Part node → Part' node) {node : Node}
    (h : node.Composed t Part) : node.Composed t Part' := by
  induction h with
  | leaf part => exact leaf (hmono _ part)
  | group head final composed chain ih => exact group head final ih chain

variable (hPart : ∀ node, Part node → node.IsSlice t)

include hPart

/-- **The leaves of a composed tree fill its span.** -/
theorem fills {node : Node} (h : node.Composed t Part) :
    Fills t node.start node.leaves node.stop := by
  induction h with
  | leaf part =>
    have hslice := hPart _ part
    rw [leaves_of_isLeaf hslice.isLeaf]
    exact Fills.singleton hslice
  | group head final composed chain ih =>
    rw [leaves_mk (List.ne_nil_of_mem (List.mem_of_mem_head? head))]
    have hchildren := fills_children ih chain head final
    exact hchildren

/-- The leaves of a composed tree are the given ones. -/
theorem part_of_mem_leaves {node leaf : Node} (h : node.Composed t Part)
    (hleaf : leaf ∈ node.leaves) : Part leaf := by
  induction h with
  | leaf part =>
    rw [leaves_of_isLeaf (hPart _ part).isLeaf, List.mem_singleton] at hleaf
    exact hleaf ▸ part
  | group head final composed chain ih =>
    rw [leaves_mk (List.ne_nil_of_mem (List.mem_of_mem_head? head))] at hleaf
    obtain ⟨child, hchild, hleaf⟩ := List.mem_flatMap.1 hleaf
    exact ih child hchild hleaf

/-- A composed tree starts with its first leaf. -/
theorem exists_first {node : Node} (h : node.Composed t Part) :
    ∃ first ∈ node.leaves.head?, first.start = node.start := by
  induction h with
  | leaf part =>
    rw [leaves_of_isLeaf (hPart _ part).isLeaf]
    exact ⟨_, rfl, rfl⟩
  | group head final composed chain ih =>
    obtain ⟨rest, rfl⟩ := List.head?_eq_some_iff.1 head
    obtain ⟨first, hfirst, hstart⟩ := ih _ (List.mem_cons_self ..)
    refine ⟨first, ?_, hstart⟩
    rw [leaves_mk (by simp), List.flatMap_cons, List.head?_append, Option.mem_def.1 hfirst]
    rfl

/-- Composed trees that may stand in a group span a stretch. -/
theorem span_le {children : List Node} {first last : Node} (h : Siblings t Part children)
    (hfirst : children.head? = some first) (hlast : children.getLast? = some last) :
    first.start ≤ last.stop := by
  have hfills := fills_children (fun child hchild => (h.composed child hchild).fills hPart) h.chain
    hfirst hlast
  refine hfills.start_le_stop ?_
  intro leaf hleaf
  obtain ⟨child, hchild, hleaf⟩ := List.mem_flatMap.1 hleaf
  exact (hPart leaf ((h.composed child hchild).part_of_mem_leaves hPart hleaf)).start_le_stop

theorem start_le_stop {node : Node} (h : node.Composed t Part) : node.start ≤ node.stop := by
  refine (h.fills hPart).start_le_stop ?_
  intro leaf hleaf
  exact (hPart leaf (h.part_of_mem_leaves hPart hleaf)).start_le_stop

/-- **A group over children that may stand in one is composed.** -/
theorem of_group? {tags : List Tag} {label : String} {children : List Node} {node : Node}
    (h : Siblings t Part children) (hnode : group? tags label children = some node) :
    node.Composed t Part := by
  unfold group? at hnode
  split at hnode
  · rename_i first last hfirst hlast
    obtain rfl := Option.some.inj hnode
    rw [Nat.max_eq_left (span_le hPart h hfirst hlast)]
    exact group hfirst hlast h.composed h.chain
  · simp at hnode

/-- Every node of a composed tree is composed. -/
theorem of_mem_preorder {node inner : Node} (h : node.Composed t Part)
    (hinner : inner ∈ node.preorder) : inner.Composed t Part := by
  induction h with
  | leaf part =>
    have hnil := List.isEmpty_iff.1 (hPart _ part).isLeaf
    rw [preorder_eq, hnil, preorderAll_nil, List.mem_singleton] at hinner
    exact hinner ▸ leaf part
  | group head final composed chain ih =>
    rw [preorder_eq, preorderAll_eq_flatMap, List.mem_cons] at hinner
    rcases hinner with rfl | hinner
    · exact group head final composed chain
    · obtain ⟨child, hchild, hinner⟩ := List.mem_flatMap.1 hinner
      exact ih child hchild hinner

/-- A composed tree spans a stretch between two boundaries. -/
theorem isBoundary {node : Node} (h : node.Composed t Part) :
    t.IsBoundary node.start ∧ t.IsBoundary node.stop := by
  induction h with
  | leaf part => exact (hPart _ part).isBoundary
  | group head final composed chain ih =>
    exact ⟨(ih _ (List.mem_of_mem_head? head)).1, (ih _ (List.mem_of_getLast? final)).2⟩

/-- Children that may stand in a group follow one another in order, also those that are no
neighbours. -/
theorem pairwise {children : List Node} (h : Siblings t Part children) :
    children.Pairwise fun a b => a.stop ≤ b.start := by
  obtain ⟨hcomposed, hchain⟩ := h
  induction children with
  | nil => exact .nil
  | cons a children ih =>
    have hrest := ih (fun child hchild => hcomposed child (by simp [hchild]))
      (List.isChain_cons.1 hchain).2
    refine .cons ?_ hrest
    intro b hb
    cases children with
    | nil => simp at hb
    | cons c children =>
      have hac := (List.isChain_cons_cons.1 hchain).1.le
      rcases List.mem_cons.1 hb with rfl | hb
      · exact hac
      · calc a.stop ≤ c.start := hac
          _ ≤ c.stop := (hcomposed c (by simp)).start_le_stop hPart
          _ ≤ b.start := List.rel_of_pairwise_cons hrest hb

/-- **What holds at a composed tree:** its bounds are in order, it has a text of its own exactly when
it has no children, and otherwise it spans from its first to its last child. -/
theorem span {node : Node} (h : node.Composed t Part) :
    (node.token.isSome = true ↔ node.children = []) ∧
      (∀ first ∈ node.children.head?, ∀ last ∈ node.children.getLast?,
        node.start = first.start ∧ node.stop = last.stop) ∧
      node.children.Pairwise fun a b => a.stop ≤ b.start := by
  cases h with
  | leaf part =>
    obtain ⟨hleaf, value, p, -, -, htoken⟩ := hPart node part
    have hnil := List.isEmpty_iff.1 hleaf
    simp [htoken, hnil]
  | group head final composed chain =>
    refine ⟨?_, ?_, pairwise hPart ⟨composed, chain⟩⟩
    · have hne := List.ne_nil_of_mem (List.mem_of_mem_head? head)
      simp [hne]
    · intro first hfirst last hlast
      obtain rfl := Option.mem_unique head hfirst
      obtain rfl := Option.mem_unique final hlast
      exact ⟨rfl, rfl⟩

end Node.Composed

end GoTree
