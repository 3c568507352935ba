import GoTree.Proofs.Mapping.Document
import GoTree.Proofs.Tree.Traversal

/-!
# Counting tagged nodes

How many nodes of a realized plan carry a tag.  The nodes come from the plan, which says how they
are tagged, and from the gaps, where only comments and `else` have tags.  A group makes a node only
if there is a token in it, and a token may be left out unless the mapping is strict; so the plan
tells how many nodes carry another tag at most, and in a strict mapping how many do.

## Main definitions

* `Node.tagged`: how many nodes of some trees carry a tag
* `Plan.tagged`, `Plan.taggedAll`: how many nodes of a plan do, with all tokens found
* `Mapping.MadeFor`: nodes made for some tokens, with their tagged nodes

## Main results

* `Mapping.tagged_fillGap`: no node in a gap carries the tag
* `Mapping.madeFor_realize`, `Mapping.madeFor_realizeAll`: the tagged nodes of realized plans
* `tagged_of_mapFile`: the tagged nodes of the tree of a file
-/

namespace GoTree

/-! ### Tagged nodes -/

namespace Node

variable {tag : Tag}

/-- **How many nodes of some trees carry a tag.** -/
def tagged (tag : Tag) (nodes : List Node) : Nat :=
  (preorderAll nodes).countP (·.hasTag tag)

@[simp]
theorem tagged_nil : tagged tag [] = 0 := rfl

@[simp]
theorem tagged_append (nodes more : List Node) :
    tagged tag (nodes ++ more) = tagged tag nodes + tagged tag more := by
  rw [tagged, preorderAll_append, List.countP_append, tagged, tagged]

theorem tagged_cons (node : Node) (nodes : List Node) :
    tagged tag (node :: nodes) = tagged tag [node] + tagged tag nodes :=
  tagged_append [node] nodes

/-- The tagged nodes of a tree are its root, if it is one, and those below it. -/
theorem tagged_singleton (node : Node) :
    tagged tag [node] = (if tag ∈ node.tags then 1 else 0) + tagged tag node.children := by
  have hroot : node.hasTag tag = decide (tag ∈ node.tags) := List.contains_eq_mem tag node.tags
  rw [tagged, tagged, preorderAll_cons, preorderAll_nil, List.append_nil, preorder_eq,
    List.countP_cons, hroot, Nat.add_comm]
  simp

/-- The tagged nodes of a group, which is made only over children. -/
theorem tagged_group? (tags : List Tag) (label : String) (children : List Node) :
    tagged tag (group? tags label children).toList =
      (if tag ∈ tags ∧ children ≠ [] then 1 else 0) + tagged tag children := by
  cases children with
  | nil => simp
  | cons first rest =>
    obtain ⟨last, -, hgroup⟩ := group?_cons tags label first rest
    rw [hgroup, Option.toList_some, tagged_singleton]
    simp

/-- Nodes none of which is tagged. -/
theorem tagged_eq_zero_iff {nodes : List Node} :
    tagged tag nodes = 0 ↔ ∀ node ∈ preorderAll nodes, node.hasTag tag = false := by
  simp [tagged, List.countP_eq_zero]

end Node

/-! ### Tagged nodes of plans -/

namespace Plan

mutual

/-- **How many nodes of a plan carry a tag**, if all its tokens are found. -/
def tagged (tag : Tag) : Plan → Nat
  | .nothing => 0
  | .token tags _ _ _ => if tag ∈ tags then 1 else 0
  | .group tags _ parts =>
    (if tag ∈ tags ∧ leavesAll parts ≠ [] then 1 else 0) + taggedAll tag parts

/-- How many nodes of several plans carry a tag. -/
def taggedAll (tag : Tag) : List Plan → Nat
  | [] => 0
  | plan :: rest => tagged tag plan + taggedAll tag rest

end

variable {tag : Tag}

@[simp]
theorem taggedAll_nil : taggedAll tag [] = 0 := rfl

@[simp]
theorem taggedAll_cons (plan : Plan) (rest : List Plan) :
    taggedAll tag (plan :: rest) = plan.tagged tag + taggedAll tag rest := rfl

@[simp]
theorem taggedAll_append (plans rest : List Plan) :
    taggedAll tag (plans ++ rest) = taggedAll tag plans + taggedAll tag rest := by
  induction plans with
  | nil => simp
  | cons plan plans ih => simp [ih, Nat.add_assoc]

end Plan

namespace Mapping

variable {m : Mapping} {tag : Tag}

/-! ### Gaps -/

/-- A leaf is tagged as it is made. -/
theorem tagged_leafAt {tags : List Tag} {start stop : Nat} {label : String} {leaf : Node}
    (h : m.leafAt tags start stop label = .ok (some leaf)) :
    Node.tagged tag [leaf] = if tag ∈ tags then 1 else 0 := by
  obtain ⟨value, p, -, -, -, rfl⟩ := leafAt_eq_ok_some h
  rw [Node.tagged_singleton]
  rfl

section

variable (helse : tag ≠ .elseKeyword)

include helse

theorem tagged_pieceLeaves {pieces : List GapPiece} {leaves : List Node}
    (h : m.pieceLeaves pieces = .ok leaves) : Node.tagged tag leaves = 0 := by
  induction pieces generalizing leaves with
  | nil =>
    obtain rfl : leaves = [] := by simpa [pieceLeaves] using h.symm
    rfl
  | cons piece pieces ih =>
    obtain ⟨leaf, others, hleaf, hothers, rfl⟩ := pieceLeaves_cons h
    rw [Node.tagged_append, ih hothers]
    cases leaf with
    | none => rfl
    | some leaf =>
      obtain ⟨tags, start, stop, hmade, htags⟩ := leafAt_of_pieceLeaf hleaf
      rw [Option.toList_some, tagged_leafAt hmade, if_neg]
      rcases htags with rfl | rfl <;> simp [helse]

theorem tagged_filling {start stop : Nat} {passed ahead gap : List Node} {cursor : CommentCursor}
    (hcomments : ∀ comment ∈ ahead, Node.tagged tag [comment] = 0)
    (h : m.Filling stop start passed ahead gap cursor) : Node.tagged tag gap = 0 := by
  induction h with
  | skipped _ _ ih => exact ih (List.forall_mem_of_forall_mem_cons hcomments)
  | found _ _ hleaves _ ih =>
    rw [List.forall_mem_cons] at hcomments
    rw [Node.tagged_append, Node.tagged_cons, tagged_pieceLeaves helse hleaves, hcomments.1,
      ih hcomments.2]
  | ended _ hleaves => exact tagged_pieceLeaves helse hleaves

/-- **No node in a gap carries the tag**, if no comment does. -/
theorem tagged_fillGap {start stop : Nat} {cursor cursor' : CommentCursor} {gap : List Node}
    (hcomments : ∀ comment ∈ cursor.toList, Node.tagged tag [comment] = 0)
    (h : m.fillGap start stop cursor = .ok (gap, cursor')) : Node.tagged tag gap = 0 := by
  refine tagged_filling helse (fun comment hmem => hcomments comment ?_) (fillFrom_eq_ok_iff.1 h)
  rw [← CommentCursor.toList_rewind cursor start, CommentCursor.toList]
  exact List.mem_append_right _ hmem

/-- Appending a child adds its tagged nodes and keeps the comments. -/
theorem tagged_append {children children' : List Node} {child : Option Node}
    {cursor cursor' : CommentCursor}
    (hcomments : ∀ comment ∈ cursor.toList, Node.tagged tag [comment] = 0)
    (h : m.append children child cursor = .ok (children', cursor')) :
    cursor'.toList = cursor.toList ∧
      Node.tagged tag children' = Node.tagged tag children + Node.tagged tag child.toList := by
  cases child with
  | none =>
    obtain ⟨rfl, rfl⟩ : children = children' ∧ cursor = cursor' := by simpa [append] using h
    exact ⟨rfl, rfl⟩
  | some child =>
    rcases append_eq_ok h with ⟨rfl, rfl, rfl⟩ | ⟨last, gap, -, -, hgap, rfl⟩
    · exact ⟨rfl, by simp⟩
    · refine ⟨toList_fillGap hgap, ?_⟩
      rw [Node.tagged_append, Node.tagged_append, tagged_fillGap helse hcomments hgap,
        Nat.add_zero, Option.toList_some]

end

/-- Comments are tagged as comments only. -/
theorem tagged_commentLeaves {list : List Comment} {leaves : List Node}
    (h : m.commentLeaves list = .ok leaves) (hcomment : tag ≠ .comment)
    (hstructured : tag ≠ .structuredComment) : ∀ leaf ∈ leaves, Node.tagged tag [leaf] = 0 := by
  intro leaf hleaf
  obtain ⟨comment, -, hmade⟩ := mem_commentLeaves h hleaf
  rw [tagged_leafAt (expect_eq_ok_some hmade).1, if_neg]
  unfold commentTags
  split <;> simp [hcomment, hstructured]

/-! ### Realized plans -/

/-- **Nodes made for some tokens**, `count` of which are planned to carry a tag: no more of them do,
and there are none without tokens.  In a strict mapping nothing is left out. -/
structure MadeFor (m : Mapping) (tag : Tag) (nodes : List Node) (leaves : List Plan.Leaf)
    (count : Nat) : Prop where
  le : Node.tagged tag nodes ≤ count
  eq : m.strictness = .strict → Node.tagged tag nodes = count
  leaves_ne_nil : nodes ≠ [] → leaves ≠ []
  nodes_ne_nil : m.strictness = .strict → leaves ≠ [] → nodes ≠ []

namespace MadeFor

variable {nodes : List Node} {leaves more : List Plan.Leaf} {count k : Nat}

theorem nil : MadeFor m tag [] [] 0 :=
  ⟨Nat.le_refl 0, fun _ => rfl, by simp, by simp⟩

/-- A planned token is tagged as it is planned. -/
theorem token {planned : Plan.Leaf} {result : Option Node} (h : m.expectLeaf planned = .ok result) :
    MadeFor m tag result.toList [planned] (if tag ∈ planned.tags then 1 else 0) := by
  cases result with
  | none =>
    exact ⟨Nat.zero_le _, fun hstrict => (expect_ne_none hstrict h).elim, fun hne => absurd rfl hne,
      fun hstrict => (expect_ne_none hstrict h).elim⟩
  | some node =>
    have htagged : Node.tagged tag [node] = if tag ∈ planned.tags then 1 else 0 :=
      tagged_leafAt (expect_eq_ok_some h).1
    exact ⟨Nat.le_of_eq htagged, fun _ => htagged, by simp, by simp⟩

/-- **Appending** a child adds its tokens and its tagged nodes. -/
theorem append (helse : tag ≠ .elseKeyword) {nodes' : List Node} {child : Option Node}
    {cursor cursor' : CommentCursor} (h : MadeFor m tag nodes leaves count)
    (hchild : MadeFor m tag child.toList more k)
    (hcomments : ∀ comment ∈ cursor.toList, Node.tagged tag [comment] = 0)
    (happend : m.append nodes child cursor = .ok (nodes', cursor')) :
    MadeFor m tag nodes' (leaves ++ more) (count + k) := by
  have htagged := (tagged_append helse hcomments happend).2
  have hnil : nodes' = [] ↔ nodes = [] ∧ child.toList = [] := by
    cases child with
    | none =>
      obtain ⟨rfl, -⟩ : nodes = nodes' ∧ _ := by simpa [Mapping.append] using happend
      simp
    | some child => rcases append_eq_ok happend with ⟨-, rfl, -⟩ | ⟨_, _, -, -, -, rfl⟩ <;> simp
  refine ⟨htagged ▸ Nat.add_le_add h.le hchild.le, fun hstrict => ?_, fun hne => ?_,
    fun hstrict hne => ?_⟩
  · rw [htagged, h.eq hstrict, hchild.eq hstrict]
  · rw [Ne, hnil, not_and_or] at hne
    rw [Ne, List.append_eq_nil_iff, not_and_or]
    exact hne.imp h.leaves_ne_nil hchild.leaves_ne_nil
  · rw [Ne, List.append_eq_nil_iff, not_and_or] at hne
    rw [Ne, hnil, not_and_or]
    exact hne.imp (h.nodes_ne_nil hstrict) (hchild.nodes_ne_nil hstrict)

/-- **Grouping** nodes adds one, if there are any. -/
theorem group? (tags : List Tag) (label : String) (h : MadeFor m tag nodes leaves count) :
    MadeFor m tag (Node.group? tags label nodes).toList leaves
      ((if tag ∈ tags ∧ leaves ≠ [] then 1 else 0) + count) := by
  have hgroup : (Node.group? tags label nodes).toList ≠ [] ↔ nodes ≠ [] := by
    cases nodes with
    | nil => simp
    | cons first rest =>
      obtain ⟨last, -, hgroup⟩ := Node.group?_cons tags label first rest
      simp [hgroup]
  have htagged : Node.tagged tag (Node.group? tags label nodes).toList = _ :=
    Node.tagged_group? tags label nodes
  refine ⟨?_, fun hstrict => ?_, fun hne => h.leaves_ne_nil (hgroup.1 hne),
    fun hstrict hne => hgroup.2 (h.nodes_ne_nil hstrict hne)⟩
  · -- a node that is made has tokens, so it was counted
    rw [htagged]
    refine Nat.add_le_add ?_ h.le
    by_cases hnodes : tag ∈ tags ∧ nodes ≠ []
    · rw [if_pos hnodes, if_pos ⟨hnodes.1, h.leaves_ne_nil hnodes.2⟩]
    · rw [if_neg hnodes]
      exact Nat.zero_le _
  · have hiff : nodes ≠ [] ↔ leaves ≠ [] := ⟨h.leaves_ne_nil, h.nodes_ne_nil hstrict⟩
    simp only [htagged, h.eq hstrict, hiff]

end MadeFor

mutual

/-- **The tagged nodes of a realized plan.** -/
theorem madeFor_realize (helse : tag ≠ .elseKeyword) : (plan : Plan) →
    {cursor cursor' : CommentCursor} → {result : Option Node} →
    (hcomments : ∀ comment ∈ cursor.toList, Node.tagged tag [comment] = 0) →
    (h : m.realize plan cursor = .ok (result, cursor')) →
    cursor'.toList = cursor.toList ∧ MadeFor m tag result.toList plan.leaves (plan.tagged tag)
  | .nothing, cursor, cursor', result, hcomments, h => by
    obtain ⟨rfl, rfl⟩ := realize_nothing_eq_ok.1 h
    exact ⟨rfl, .nil⟩
  | .token tags pos text label, cursor, cursor', result, hcomments, h => by
    obtain ⟨hleaf, rfl⟩ := realize_token_eq_ok.1 h
    have hleaf' : m.expectLeaf ⟨tags, pos, text, label⟩ = .ok result := hleaf
    exact ⟨rfl, .token hleaf'⟩
  | .group tags label parts, cursor, cursor', result, hcomments, h => by
    obtain ⟨children, hparts, rfl⟩ := realize_group_eq_ok.1 h
    obtain ⟨hkept, hmade⟩ := madeFor_realizeAll helse parts .nil hcomments hparts
    rw [List.nil_append, Nat.zero_add] at hmade
    exact ⟨hkept, hmade.group? tags label⟩

/-- The tagged nodes of plans that are realized after some children. -/
theorem madeFor_realizeAll (helse : tag ≠ .elseKeyword) : (plans : List Plan) →
    {children children' : List Node} → {leaves : List Plan.Leaf} → {count : Nat} →
    {cursor cursor' : CommentCursor} →
    (hmade : MadeFor m tag children leaves count) →
    (hcomments : ∀ comment ∈ cursor.toList, Node.tagged tag [comment] = 0) →
    (h : m.realizeAll plans children cursor = .ok (children', cursor')) →
    cursor'.toList = cursor.toList ∧
      MadeFor m tag children' (leaves ++ Plan.leavesAll plans) (count + Plan.taggedAll tag plans)
  | [], children, children', leaves, count, cursor, cursor', hmade, hcomments, h => by
    obtain ⟨rfl, rfl⟩ : children = children' ∧ cursor = cursor' := by simpa [realizeAll] using h
    exact ⟨rfl, by simpa using hmade⟩
  | plan :: rest, children, children', leaves, count, cursor, cursor', hmade, hcomments, h => by
    obtain ⟨result, cursor₁, children₁, cursor₂, hresult, happend, hrest⟩ :=
      realizeAll_cons_eq_ok.1 h
    obtain ⟨hkept, hplan⟩ := madeFor_realize helse plan hcomments hresult
    have hcomments₁ := hkept ▸ hcomments
    have hkept' := (tagged_append helse hcomments₁ happend).1
    have hgrown := hmade.append helse hplan hcomments₁ happend
    obtain ⟨hkept'', hall⟩ := madeFor_realizeAll helse rest hgrown (hkept' ▸ hcomments₁) hrest
    -- what was there before, the plan, and the rest
    refine ⟨hkept''.trans (hkept'.trans hkept), ?_⟩
    rwa [List.append_assoc, Nat.add_assoc] at hall

end

/-! ### Files -/

/-- The node of a package clause is tagged as the name of the package is planned. -/
theorem madeFor_packageNode {file : File} {package : Option Node} {cursor cursor' : CommentCursor}
    (helse : tag ≠ .elseKeyword) (hkeyword : tag ≠ .keyword) (hpackage : tag ≠ .package)
    (hcomments : ∀ comment ∈ cursor.toList, Node.tagged tag [comment] = 0)
    (h : m.packageNode file cursor = .ok (package, cursor')) :
    cursor'.toList = cursor.toList ∧
      ∃ leaves, MadeFor m tag package.toList leaves ((file.name.plan [] "Name").tagged tag) := by
  obtain ⟨keyword, children, cursor₁, parts, hexpect, hlead, hparts, rfl⟩ := packageNode_steps h
  -- what stands before the name is not tagged
  obtain ⟨hkept, leaves, hmade⟩ : cursor₁.toList = cursor.toList ∧
      ∃ leaves, MadeFor m tag children leaves 0 := by
    cases keyword with
    | none =>
      obtain ⟨rfl, rfl⟩ : [] = children ∧ cursor = cursor₁ := by simpa [packageLead] using hlead
      exact ⟨rfl, [], .nil⟩
    | some leaf =>
      obtain ⟨lead, cursor₃, hgap, happend⟩ := packageLead_some_steps hlead
      have hgapped := tagged_fillGap helse hcomments hgap
      have hcomments₃ := toList_fillGap hgap ▸ hcomments
      obtain ⟨hkept, htagged⟩ := tagged_append helse hcomments₃ happend
      have hleaf : Node.tagged tag [leaf] = 0 := by
        rw [tagged_leafAt (expect_eq_ok_some hexpect).1, if_neg]
        simp [hkeyword]
      rw [hgapped, Option.toList_some, hleaf] at htagged
      have hne : children ≠ [] := by
        rcases append_eq_ok happend with ⟨-, rfl, -⟩ | ⟨_, _, -, -, -, rfl⟩ <;> simp
      exact ⟨hkept.trans (toList_fillGap hgap), [⟨[.keyword], 0, "", ""⟩],
        ⟨Nat.le_of_eq htagged, fun _ => htagged, by simp, fun _ _ => hne⟩⟩
  obtain ⟨hkept', hall⟩ := madeFor_realizeAll helse _ hmade (hkept ▸ hcomments) hparts
  have hgroup := hall.group? [.package] "File.Package"
  rw [if_neg (by simp [hpackage]), Nat.zero_add] at hgroup
  exact ⟨hkept'.trans hkept, _, by simpa using hgroup⟩

end Mapping

/-- **The tagged nodes of the tree of a file**, in a strict mapping and for a tag that only
constructs have: they are the tagged nodes of its name and of its declarations. -/
theorem tagged_of_mapFile {source : Source} {file : File} {doc : Document} {tag : Tag}
    (htag : tag ∉ [.compilationUnit, .package, .declList, .keyword, .endOfFile, .elseKeyword,
      .comment, .structuredComment])
    (h : mapFile source file .strict = .ok doc) :
    doc.tree.descendants.countP (·.hasTag tag) = (file.name.plan [] "Name").tagged tag +
      Plan.taggedAll tag (Plan.elementsFrom Decl.plan 0 file.decls) := by
  simp only [List.mem_cons, List.not_mem_nil, or_false, not_or] at htag
  obtain ⟨hunit, hpackage, hlist, hkeyword, hend, helse, hcomment, hstructured⟩ := htag
  obtain ⟨comments, hleaves, htree, -⟩ := mapFile_steps h
  have hcomments : ∀ comment ∈ (CommentCursor.start comments).toList,
      Node.tagged tag [comment] = 0 :=
    Mapping.tagged_commentLeaves hleaves hcomment hstructured
  obtain ⟨package, cursor, children, cursor', hnode, hparts, htree⟩ :=
    Mapping.fileNode_steps htree
  obtain ⟨hkept, leaves, hmade⟩ :=
    Mapping.madeFor_packageNode helse hkeyword hpackage hcomments hnode
  have hall := (Mapping.madeFor_realizeAll helse _ hmade (hkept ▸ hcomments) hparts).2
  have hgroup := (hall.group? [.compilationUnit] "(File)").eq rfl
  rw [← htree, Option.toList_some, if_neg (by simp [hunit]), Nat.zero_add] at hgroup
  rw [Node.descendants_eq_preorder]
  simpa [Node.tagged, Mapping.fileParts, Plan.tagged, hlist, hend] using hgroup

end GoTree
