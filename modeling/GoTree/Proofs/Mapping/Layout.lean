import GoTree.Proofs.Mapping.Between

/-!
# Laying out planned tokens

A gap is always filled between two planned tokens that follow one another, whichever groups they
belong to.  So the leaves of a realized plan depend only on the sequence of its tokens: each token is
found, and each gap between neighbours is filled, whatever the nesting of the plan is.

## Main definitions

* `Mapping.Laid`: planned tokens that are found, with the leaves that fill the gaps between them

## Main results

* `Mapping.realizes`, `Mapping.exists_realizeAll`: plans over such tokens are realized
* `Mapping.exists_fileNode`: so is a whole file
-/

namespace GoTree.Mapping

variable {m : Mapping} {comments : List Node}

/-- **Planned tokens that are found**, with the leaves that fill the gaps between them, from where
the last leaf before them stops to where their own last leaf stops.  Before the first token of all
there is no gap. -/
inductive Laid (m : Mapping) (comments : List Node) :
    Option Nat → List Plan.Leaf → List Node → Option Nat → Prop
  | nil {start : Option Nat} : Laid m comments start [] [] start
  | first {leaf : Plan.Leaf} {leaves : List Plan.Leaf} {node : Node} {nodes : List Node}
      {stop : Option Nat} (made : m.expectLeaf leaf = .ok (some node))
      (rest : Laid m comments (some node.stop) leaves nodes stop) :
      Laid m comments none (leaf :: leaves) (node :: nodes) stop
  | next {last : Nat} {leaf : Plan.Leaf} {leaves : List Plan.Leaf} {node : Node}
      {between nodes : List Node} {stop : Option Nat}
      (made : m.expectLeaf leaf = .ok (some node)) (order : last ≤ node.start)
      (gap : m.Gap comments last node.start between)
      (rest : Laid m comments (some node.stop) leaves nodes stop) :
      Laid m comments (some last) (leaf :: leaves) (between ++ node :: nodes) stop

namespace Laid

variable {start stop : Option Nat} {leaves rest : List Plan.Leaf} {nodes : List Node}

/-- Tokens laid out one after the other can be taken apart. -/
theorem of_append (h : m.Laid comments start (leaves ++ rest) nodes stop) :
    ∃ front back middle, nodes = front ++ back ∧ m.Laid comments start leaves front middle ∧
      m.Laid comments middle rest back stop := by
  induction leaves generalizing start nodes with
  | nil => exact ⟨[], nodes, start, rfl, .nil, h⟩
  | cons leaf leaves ih =>
    cases h with
    | first made after =>
      obtain ⟨front, back, middle, rfl, hfront, hback⟩ := ih after
      exact ⟨_, back, middle, rfl, .first made hfront, hback⟩
    | next made order gap after =>
      obtain ⟨front, back, middle, rfl, hfront, hback⟩ := ih after
      exact ⟨_, back, middle, by simp, .next made order gap hfront, hback⟩

/-- Every planned token is found. -/
theorem exists_of_mem {leaf : Plan.Leaf} (h : m.Laid comments start leaves nodes stop)
    (hleaf : leaf ∈ leaves) : ∃ node ∈ nodes, m.expectLeaf leaf = .ok (some node) := by
  induction h with
  | nil => cases hleaf
  | first made _ ih =>
    rcases List.mem_cons.1 hleaf with rfl | hleaf
    · exact ⟨_, List.mem_cons_self, made⟩
    · obtain ⟨node, hnode, hmade⟩ := ih hleaf
      exact ⟨node, List.mem_cons_of_mem _ hnode, hmade⟩
  | next made _ _ _ ih =>
    rcases List.mem_cons.1 hleaf with rfl | hleaf
    · exact ⟨_, by simp, made⟩
    · obtain ⟨node, hnode, hmade⟩ := ih hleaf
      exact ⟨node, by simp [hnode], hmade⟩

/-- The gap before the first token, and the tokens without it. -/
theorem exists_gap {last : Nat} {leaf : Plan.Leaf}
    (h : m.Laid comments (some last) (leaf :: leaves) nodes stop) :
    ∃ between node others, nodes = between ++ node :: others ∧
      m.Laid comments none (leaf :: leaves) (node :: others) stop ∧ last ≤ node.start ∧
      m.Gap comments last node.start between := by
  cases h with
  | next made order gap after => exact ⟨_, _, _, rfl, .first made after, order, gap⟩

end Laid

/-! ### Leaves of groups -/

theorem flatMap_leaves_of_isLeaf {nodes : List Node} (h : ∀ node ∈ nodes, node.isLeaf = true) :
    nodes.flatMap Node.leaves = nodes := by
  induction nodes with
  | nil => rfl
  | cons node nodes ih =>
    rw [List.forall_mem_cons] at h
    rw [List.flatMap_cons, Node.leaves_of_isLeaf h.1, ih h.2]
    rfl

/-- A group has the leaves of its children, if it has any. -/
theorem flatMap_leaves_group? (tags : List Tag) (label : String) (children : List Node) :
    (Node.group? tags label children).toList.flatMap Node.leaves = children.flatMap Node.leaves := by
  cases children with
  | nil => rfl
  | cons child children =>
    obtain ⟨last, -, hgroup⟩ := Node.group?_cons tags label child children
    rw [hgroup, Option.toList_some, List.flatMap_singleton, Node.leaves_mk (by simp)]

/-- A group over children that may stand in one stops where the last of them does. -/
theorem map_stop_group? {t : Text} {Part : Node → Prop} (hPart : ∀ node, Part node → node.IsSlice t)
    (tags : List Tag) (label : String) {children : List Node} (h : Siblings t Part children) :
    (Node.group? tags label children).map Node.stop = children.getLast?.map Node.stop := by
  cases children with
  | nil => rfl
  | cons child children =>
    obtain ⟨last, hlast, hgroup⟩ := Node.group?_cons tags label child children
    have hle := Node.Composed.span_le hPart h rfl hlast
    rw [hgroup, hlast, Option.map_some, Option.map_some, Nat.max_eq_left hle]

/-! ### Plans -/

/-- **Appending a child after a gap that can be filled.** -/
theorem exists_append {children between : List Node} {last child : Node} {cursor : CommentCursor}
    (hcursor : cursor.toList = comments) (hlast : children.getLast? = some last)
    (hle : last.stop ≤ child.start) (hgap : m.Gap comments last.stop child.start between) :
    ∃ cursor', m.append children (some child) cursor =
        .ok (children ++ between ++ [child], cursor') ∧ cursor'.toList = comments := by
  obtain ⟨cursor', hfill⟩ := hgap.filled cursor hcursor
  refine ⟨cursor', ?_, (toList_fillGap hfill).trans hcursor⟩
  rw [append, hlast]
  dsimp only
  rw [if_neg (Nat.not_lt.2 hle), hfill]

/-- **A plan is realized** with the leaves that its tokens are laid out with, for any leaves. -/
def Realizes (m : Mapping) (comments : List Node) (plan : Plan) : Prop :=
  ∀ {nodes : List Node} {stop : Option Nat} {cursor : CommentCursor},
    m.Laid comments none plan.leaves nodes stop → cursor.toList = comments →
    ∃ result cursor', m.realize plan cursor = .ok (result, cursor') ∧ cursor'.toList = comments ∧
      result.toList.flatMap Node.leaves = nodes ∧ result.map Node.stop = stop

section

variable (hcomments : ∀ comment ∈ comments, comment.IsSlice m.text)

include hcomments

/-- A realized plan starts with its first leaf. -/
theorem start_of_realize {plan : Plan} {cursor cursor' : CommentCursor} {node first : Node}
    {others : List Node} (hcursor : cursor.toList = comments)
    (h : m.realize plan cursor = .ok (some node, cursor')) (hleaves : node.leaves = first :: others) :
    node.start = first.start := by
  have hcomposed := (composed_realize hcomments plan (fun _ hleaf => hleaf) hcursor h).2 node rfl
  obtain ⟨first', hfirst, hstart⟩ := hcomposed.exists_first (Origin.isSlice hcomments)
  rw [hleaves, List.head?_cons, Option.mem_some_iff] at hfirst
  rw [← hstart, hfirst]

/-- **Realizing a plan after some children** appends its node, after the gap before it. -/
theorem exists_realize_append {plan : Plan} (hplan : m.Realizes comments plan)
    {children nodes : List Node} {start stop : Option Nat} {cursor : CommentCursor}
    (h : m.Laid comments start plan.leaves nodes stop)
    (hstart : children.getLast?.map Node.stop = start) (hcursor : cursor.toList = comments) :
    ∃ result cursor₁ children' cursor', m.realize plan cursor = .ok (result, cursor₁) ∧
      m.append children result cursor₁ = .ok (children', cursor') ∧ cursor'.toList = comments ∧
      children'.flatMap Node.leaves = children.flatMap Node.leaves ++ nodes ∧
      children'.getLast?.map Node.stop = stop := by
  cases hleaves : plan.leaves with
  | nil =>
    -- no token is planned, so there is no node and nothing to append
    rw [hleaves] at h
    cases h with
    | nil =>
      have hnone : m.Laid comments none plan.leaves [] none := by
        rw [hleaves]
        exact .nil
      obtain ⟨result, cursor', hrealize, hkept, -, hstop⟩ := hplan hnone hcursor
      obtain rfl : result = none := Option.map_eq_none_iff.1 hstop
      exact ⟨none, cursor', children, cursor', hrealize, rfl, hkept, by simp, hstart⟩
  | cons leaf leaves =>
    cases hlast : children.getLast? with
    | none =>
      -- the first child has no gap before it
      obtain rfl := List.getLast?_eq_none_iff.1 hlast
      obtain rfl : none = start := hstart
      obtain ⟨result, cursor', hrealize, hkept, hnodes, hstop⟩ := hplan h hcursor
      rw [hleaves] at h
      cases h with
      | first made after =>
        cases result with
        | none => simp at hnodes
        | some node =>
          refine ⟨some node, cursor', [node], cursor', hrealize, rfl, hkept, ?_, by simpa using hstop⟩
          simpa using hnodes
    | some last =>
      -- the gap stands between the last child and the first leaf of the plan
      rw [hlast, Option.map_some] at hstart
      subst hstart
      rw [hleaves] at h
      obtain ⟨between, first, others, rfl, hlaid, hle, hgap⟩ := h.exists_gap
      rw [← hleaves] at hlaid
      obtain ⟨result, cursor₁, hrealize, hkept, hnodes, hstop⟩ := hplan hlaid hcursor
      cases result with
      | none => simp at hnodes
      | some node =>
        rw [Option.toList_some, List.flatMap_singleton] at hnodes
        have hfirst := start_of_realize hcomments hcursor hrealize hnodes
        rw [← hfirst] at hle hgap
        obtain ⟨cursor', happend, hkept'⟩ := exists_append hkept hlast hle hgap
        refine ⟨some node, cursor₁, _, cursor', hrealize, happend, hkept', ?_, by simpa using hstop⟩
        rw [List.flatMap_append, List.flatMap_append, flatMap_leaves_of_isLeaf hgap.leaves,
          List.flatMap_singleton, hnodes, List.append_assoc]

mutual

/-- **A plan whose tokens are laid out is realized**, with exactly these leaves. -/
theorem realizes : (plan : Plan) → m.Realizes comments plan
  | .nothing, nodes, stop, cursor, h, hcursor => by
    cases h with
    | nil => exact ⟨none, cursor, rfl, hcursor, rfl, rfl⟩
  | .token tags pos text label, nodes, stop, cursor, h, hcursor => by
    cases h with
    | @first _ _ node _ _ made after =>
      cases after with
      | nil =>
        have hmade : m.expect tags pos text label = .ok (some node) := made
        refine ⟨some node, cursor, by rw [realize, hmade], hcursor, ?_, rfl⟩
        simp [Node.leaves_of_isLeaf (isSlice_of_expect hmade).isLeaf]
  | .group tags label parts, nodes, stop, cursor, h, hcursor => by
    have hstart : ([] : List Node).getLast?.map Node.stop = none := rfl
    obtain ⟨children, cursor', hparts, hkept, hleaves, hstop⟩ :=
      exists_realizeAll parts h hstart hcursor
    obtain ⟨-, hsiblings, -⟩ := siblings_realizeAll hcomments parts (fun _ hleaf => hleaf) hcursor
      ⟨by simp, .nil⟩ hparts
    refine ⟨Node.group? tags label children, cursor', by rw [realize, hparts], hkept, ?_, ?_⟩
    · rw [flatMap_leaves_group?, hleaves]
      rfl
    · rw [map_stop_group? (Origin.isSlice hcomments) tags label hsiblings, hstop]

/-- **Plans whose tokens are laid out after some children are realized.** -/
theorem exists_realizeAll : (plans : List Plan) → {children nodes : List Node} →
    {start stop : Option Nat} → {cursor : CommentCursor} →
    (h : m.Laid comments start (Plan.leavesAll plans) nodes stop) →
    (hstart : children.getLast?.map Node.stop = start) → (hcursor : cursor.toList = comments) →
    ∃ children' cursor', m.realizeAll plans children cursor = .ok (children', cursor') ∧
      cursor'.toList = comments ∧
      children'.flatMap Node.leaves = children.flatMap Node.leaves ++ nodes ∧
      children'.getLast?.map Node.stop = stop
  | [], children, nodes, start, stop, cursor, h, hstart, hcursor => by
    cases h with
    | nil => exact ⟨children, cursor, rfl, hcursor, by simp, hstart⟩
  | plan :: rest, children, nodes, start, stop, cursor, h, hstart, hcursor => by
    obtain ⟨front, back, middle, rfl, hfront, hback⟩ := Laid.of_append h
    obtain ⟨result, cursor₁, children₁, cursor₂, hrealize, happend, hkept, hleaves, hmiddle⟩ :=
      exists_realize_append hcomments (realizes plan) hfront hstart hcursor
    obtain ⟨children', cursor', hrest, hkept', hleaves', hstop⟩ :=
      exists_realizeAll rest hback hmiddle hkept
    refine ⟨children', cursor', ?_, hkept', ?_, hstop⟩
    · rw [realizeAll, hrealize]
      dsimp only
      rw [happend]
      exact hrest
    · rw [hleaves', hleaves, List.append_assoc]

end

/-! ### Files -/

/-- Before the package keyword stands what the gap before it is filled with. -/
theorem exists_packageLead {keyword : Node} {lead : List Node} {cursor : CommentCursor}
    (hslash : ∀ comment ∈ comments, comment.start < comment.stop ∧
      comment.value.toList.head? = some '/')
    (hkeyword : keyword.IsSlice m.text) (hle : m.textStart ≤ keyword.start)
    (hgap : m.Gap comments m.textStart keyword.start lead) (hcursor : cursor.toList = comments) :
    ∃ cursor', m.packageLead (some keyword) cursor = .ok (lead ++ [keyword], cursor') ∧
      cursor'.toList = comments := by
  obtain ⟨cursor₁, hfill⟩ := hgap.filled cursor hcursor
  have hkept := (toList_fillGap hfill).trans hcursor
  cases hlast : lead.getLast? with
  | none =>
    obtain rfl := List.getLast?_eq_none_iff.1 hlast
    exact ⟨cursor₁, by rw [packageLead, hfill]; rfl, hkept⟩
  | some last =>
    -- the gap is filled once more, after the last leaf before the keyword
    have hfills := (fills_fillGap (hcursor ▸ hcomments) isBoundary_textStart
      hkeyword.isBoundary.1 hle hfill).1
    have hblank := hfills.blankBetween_last hlast
    have hnone : m.Gap comments last.stop keyword.start [] :=
      gap_of_blankBetween (fun comment hmem => ⟨hcomments comment hmem, hslash comment hmem⟩) hblank
    obtain ⟨cursor', happend, hkept'⟩ := exists_append hkept hlast hblank.le hnone
    refine ⟨cursor', ?_, hkept'⟩
    rw [packageLead, hfill]
    dsimp only
    rw [happend, List.append_nil]

/-- **The package clause is realized** when its tokens are laid out; it takes what stands before the
keyword in front of it. -/
theorem exists_packageNode {file : File} {nodes : List Node} {stop : Option Nat}
    {cursor : CommentCursor}
    (hslash : ∀ comment ∈ comments, comment.start < comment.stop ∧
      comment.value.toList.head? = some '/')
    (h : m.Laid comments (some m.textStart)
      (⟨[.keyword], file.package, Keyword.packageKw.spelling, ""⟩ ::
        (file.name.plan [] "Name").leaves) nodes stop)
    (hcursor : cursor.toList = comments) :
    ∃ package cursor', m.packageNode file cursor = .ok (package, cursor') ∧
      cursor'.toList = comments ∧ package.toList.flatMap Node.leaves = nodes ∧
      package.map Node.stop = stop := by
  cases h with
  | @next _ _ _ keyword lead rest _ made order gap after =>
    have hmade : m.expect [.keyword] file.package Keyword.packageKw.spelling "" =
        .ok (some keyword) := made
    have hkeyword := isSlice_of_expect hmade
    obtain ⟨cursor₁, hlead, hkept₁⟩ := exists_packageLead hcomments hslash hkeyword order gap hcursor
    have hstart : (lead ++ [keyword]).getLast?.map Node.stop = some keyword.stop := by simp
    have hname : m.Laid comments (some keyword.stop)
        (Plan.leavesAll [file.name.plan [] "Name"]) rest stop := by simpa using after
    obtain ⟨children, cursor', hchildren, hkept, hleaves, hstop⟩ :=
      exists_realizeAll hcomments [file.name.plan [] "Name"] hname hstart hkept₁
    refine ⟨Node.group? [.package] "File.Package" children, cursor', ?_, hkept, ?_, ?_⟩
    · rw [packageNode, hmade]
      dsimp only
      rw [hlead]
      dsimp only
      rw [hchildren]
    · have hlead' : (lead ++ [keyword]).flatMap Node.leaves = lead ++ [keyword] := by
        refine flatMap_leaves_of_isLeaf ?_
        rw [List.forall_mem_append, List.forall_mem_singleton]
        exact ⟨gap.leaves, hkeyword.isLeaf⟩
      rw [flatMap_leaves_group?, hleaves, hlead', List.append_assoc]
      rfl
    · -- the group stops where its last child does, since the children are composed
      have horigin : ∀ leaf ∈ some keyword, m.Origin comments file.planned leaf := by
        intro leaf hleaf
        rw [Option.mem_some_iff] at hleaf
        exact hleaf ▸ .planned (by simp [File.planned]) made
      obtain ⟨-, hsiblings, -⟩ := packageLead_eq_ok hcomments hcursor horigin hlead
      obtain ⟨-, hall, -⟩ := siblings_realizeAll hcomments [file.name.plan [] "Name"]
        (by simp +contextual [File.planned]) hkept₁ hsiblings hchildren
      rw [map_stop_group? (Origin.isSlice hcomments) _ _ hall, hstop]

/-- **The tree of a file is made** when the tokens of the file and its end are laid out from the front
of the text on; its leaves are the ones laid out. -/
theorem exists_fileNode {file : File} {nodes : List Node} {stop : Option Nat}
    {cursor : CommentCursor}
    (hslash : ∀ comment ∈ comments, comment.start < comment.stop ∧
      comment.value.toList.head? = some '/')
    (h : m.Laid comments (some m.textStart)
      (file.planned ++ [⟨[.endOfFile], m.text.size, "", ""⟩]) nodes stop)
    (hcursor : cursor.toList = comments) :
    ∃ tree, m.fileNode file cursor = .ok (some tree) ∧ tree.leaves = nodes := by
  rw [File.planned, List.append_assoc] at h
  obtain ⟨front, back, middle, rfl, hfront, hback⟩ := Laid.of_append h
  obtain ⟨package, cursor₁, hpackage, hkept, hleaves, hmiddle⟩ :=
    exists_packageNode hcomments hslash hfront hcursor
  have hstart : package.toList.getLast?.map Node.stop = middle := by
    rw [← hmiddle]
    cases package <;> rfl
  have hparts : m.Laid comments middle (Plan.leavesAll (m.fileParts file)) back stop := by
    simpa [fileParts] using hback
  obtain ⟨children, cursor', hchildren, -, hleaves', -⟩ :=
    exists_realizeAll hcomments (m.fileParts file) hparts hstart hkept
  have htotal := flatMap_leaves_group? [.compilationUnit] "(File)" children
  rw [hleaves', hleaves] at htotal
  cases hgroup : Node.group? [.compilationUnit] "(File)" children with
  | none =>
    -- the package keyword alone is a leaf
    rw [hgroup] at htotal
    cases hfront with
    | next made order gap after => simp at htotal
  | some tree =>
    refine ⟨tree, ?_, ?_⟩
    · rw [fileNode, hpackage]
      dsimp only
      rw [hchildren]
      dsimp only
      rw [hgroup]
    · rw [hgroup, Option.toList_some, List.flatMap_singleton] at htotal
      exact htotal

end

end GoTree.Mapping
