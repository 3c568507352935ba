import GoTree.Proofs.Grammar.Bounds
import GoTree.Proofs.Grammar.SteadyRun
import GoTree.Proofs.Mapping.Document
import GoTree.Proofs.Mapping.Subplans

/-!
# Nodes span what the syntax tree says

A strict mapping of a text without carriage returns makes every token of a plan into a leaf of the
size of its stored text.  A node therefore spans from where the first token of its plan starts to
where the last one stops.  For what was read from a text these are the start and the end that the
form of the construct gives.

## Main definitions

* `Mapping.Framed`: nodes that span what the tokens of a plan do
* `Part.BuiltAs`: the nodes that are built for a part

## Main results

* `Mapping.framed_realize`: a realized plan spans what its tokens do
* `Mapping.exists_realize_of_inside`: what is inside a realized plan was realized too
* `Part.PlannedAs.exists_node`: the node of a part has the start and the end of the part
* `mapFile_nativeSpans`: the nodes of the parts of a file have their starts and ends
-/

namespace GoTree

open Plan Recorded

/-! ### Nodes below a node -/

theorem Node.mem_preorder_of_mem_children {node child other : Node} (hchild : child ∈ node.children)
    (h : other ∈ child.preorder) : other ∈ node.preorder := by
  rw [preorder_eq, preorderAll_eq_flatMap]
  exact List.mem_cons_of_mem _ (List.mem_flatMap.2 ⟨child, hchild, h⟩)

theorem Node.children_of_group? {tags : List Tag} {label : String} {children : List Node}
    {node : Node} (h : group? tags label children = some node) : node.children = children := by
  cases children with
  | nil => cases h
  | cons first rest =>
    obtain ⟨last, -, hgroup⟩ := group?_cons tags label first rest
    rw [← Option.some.inj (hgroup.symm.trans h)]

theorem Node.self_mem_preorder (node : Node) : node ∈ node.preorder := by
  rw [preorder_eq]
  exact List.mem_cons_self

theorem Node.mem_preorder_trans {whole node other : Node} (h : node ∈ whole.preorder)
    (h' : other ∈ node.preorder) : other ∈ whole.preorder := by
  rw [preorder_eq] at h
  rcases List.mem_cons.1 h with rfl | h
  · exact h'
  · rw [preorderAll_eq_flatMap, List.mem_flatMap] at h
    obtain ⟨child, hchild, h⟩ := h
    exact mem_preorder_of_mem_children hchild (mem_preorder_trans h h')
termination_by sizeOf whole
decreasing_by
  obtain ⟨tags, token, label, children, start, stop⟩ := whole
  have hlt := List.sizeOf_lt_of_mem hchild
  simp at hlt ⊢
  omega

namespace Mapping

variable {m : Mapping}

/-! ### Realized plans -/

/-- **Nodes that span what some tokens do:** they start with the first token and stop with the last.
The tokens do not overlap, and those with plain tags have characters. -/
structure Framed (nodes : List Node) (leaves : List Plan.Leaf) : Prop where
  first : nodes.head?.map Node.start = first? (leaves.map Leaf.recorded)
  last : nodes.getLast?.map Node.stop = last? (leaves.map Leaf.recorded)
  order : InOrder (leaves.map Leaf.recorded)
  full : ∀ leaf ∈ leaves, Tag.Plain leaf.tags → leaf.recorded.pos < leaf.recorded.stop

namespace Framed

theorem nil : Framed [] [] :=
  ⟨rfl, rfl, .nil, by simp⟩

/-- Nodes with nothing in between. -/
theorem eq_nil {leaves : List Plan.Leaf} (h : Framed [] leaves) : leaves = [] := by
  cases leaves with
  | nil => rfl
  | cons leaf leaves => cases h.first

/-- **Appending** a node with its tokens. -/
theorem append {children children' : List Node} {child : Option Node}
    {leaves more : List Plan.Leaf} {cursor cursor' : CommentCursor} (h : Framed children leaves)
    (hchild : Framed child.toList more)
    (happend : m.append children child cursor = .ok (children', cursor')) :
    Framed children' (leaves ++ more) := by
  cases child with
  | none =>
    obtain rfl := hchild.eq_nil
    obtain ⟨rfl, -⟩ : children = children' ∧ _ := by simpa [Mapping.append] using happend
    simpa using h
  | some child =>
    rcases append_eq_ok happend with ⟨rfl, rfl, -⟩ | ⟨last, gap, hlast, hle, -, rfl⟩
    · obtain rfl := h.eq_nil
      exact hchild
    · -- there are tokens on either side, so the outermost of them are the outermost of all
      have hfirst := h.first
      have hlast' := h.last
      rw [hlast] at hlast'
      obtain ⟨first, rest, rfl⟩ := List.exists_cons_of_ne_nil
        (show children ≠ [] by rintro rfl; cases hlast)
      refine ⟨?_, ?_, ?_, List.forall_mem_append.2 ⟨h.full, hchild.full⟩⟩
      · rw [List.map_append, first?_append, ← hfirst]
        rfl
      · rw [List.map_append, last?_append, ← hchild.last, List.getLast?_concat]
        rfl
      · rw [List.map_append]
        refine List.isChain_append.2 ⟨h.order, hchild.order, fun a ha b hb => ?_⟩
        -- the last token stops where the last child does, the next starts where the new one does
        have hstop : last.stop = a.stop := by
          simpa [last?, Option.mem_def.1 ha] using hlast'
        have hstart : child.start = b.pos := by
          simpa [first?, Option.mem_def.1 hb] using hchild.first
        rw [← hstop, ← hstart]
        exact hle

/-- **Grouping** nodes with their tokens. -/
theorem group? {children : List Node} {leaves : List Plan.Leaf} (h : Framed children leaves)
    (tags : List Tag) (label : String) :
    Framed (Node.group? tags label children).toList leaves := by
  cases children with
  | nil => exact h
  | cons first rest =>
    obtain ⟨last, hlast, hgroup⟩ := Node.group?_cons tags label first rest
    have hstart : first? (leaves.map Leaf.recorded) = some first.start := h.first.symm
    have hstop : last? (leaves.map Leaf.recorded) = some last.stop := by
      rw [← h.last, hlast]
      rfl
    have hle : first.start ≤ last.stop := Between.le ⟨hstart, hstop⟩ h.order
    rw [hgroup]
    exact ⟨hstart.symm, by rw [hstop, Option.toList_some, List.getLast?_singleton, Option.map_some,
      max_eq_left hle], h.order, h.full⟩

end Framed

/-- In a text without carriage returns a token is as long as it is stored. -/
theorem framed_expect (hstrict : m.strictness = .strict) (hreturn : '\r' ∉ m.text)
    {tags : List Tag} {pos : Offset} {text label : String} {result : Option Node}
    (h : m.expect tags pos text label = .ok result) :
    Framed result.toList [⟨tags, pos, text, label⟩] := by
  cases result with
  | none => exact (expect_ne_none hstrict h).elim
  | some node =>
    obtain ⟨value, p, -, -, -, hnode⟩ := leafAt_eq_ok_some (expect_eq_ok_some h).1
    have hstop : (m.tokenEnd pos text).1 = pos + storedSize text := by
      simp [tokenEnd, hreturn]
    have hleaf : ∀ leaf ∈ [(⟨tags, pos, text, label⟩ : Plan.Leaf)], Tag.Plain leaf.tags →
        leaf.recorded.pos < leaf.recorded.stop := by
      intro leaf hleaf htags
      obtain rfl := List.mem_singleton.1 hleaf
      have hlt := (plain_of_expectLeaf htags h).1
      rw [hnode, hstop] at hlt
      exact hlt
    exact ⟨by rw [hnode]; rfl, by rw [hnode, hstop]; rfl, .singleton _, hleaf⟩

mutual

/-- **A realized plan** spans what its tokens do. -/
theorem framed_realize (hstrict : m.strictness = .strict) (hreturn : '\r' ∉ m.text) :
    (plan : Plan) → {cursor cursor' : CommentCursor} → {result : Option Node} →
    (h : m.realize plan cursor = .ok (result, cursor')) → Framed result.toList plan.leaves
  | .nothing, cursor, cursor', result, h => by
    obtain ⟨rfl, -⟩ := realize_nothing_eq_ok.1 h
    exact .nil
  | .token tags pos text label, cursor, cursor', result, h => by
    exact framed_expect hstrict hreturn (realize_token_eq_ok.1 h).1
  | .group tags label parts, cursor, cursor', result, h => by
    obtain ⟨children, hparts, rfl⟩ := realize_group_eq_ok.1 h
    have hframed := framed_realizeAll hstrict hreturn parts .nil hparts
    rw [List.nil_append] at hframed
    rw [leaves_group]
    exact hframed.group? tags label

theorem framed_realizeAll (hstrict : m.strictness = .strict) (hreturn : '\r' ∉ m.text) :
    (plans : List Plan) → {children children' : List Node} →
    {leaves : List Plan.Leaf} → {cursor cursor' : CommentCursor} → (h : Framed children leaves) →
    (hrun : m.realizeAll plans children cursor = .ok (children', cursor')) →
    Framed children' (leaves ++ leavesAll plans)
  | [], children, children', leaves, cursor, cursor', h, hrun => by
    obtain ⟨rfl, -⟩ : children = children' ∧ _ := by simpa [realizeAll] using hrun
    simpa using h
  | plan :: rest, children, children', leaves, cursor, cursor', h, hrun => by
    obtain ⟨result, cursor₁, children₁, cursor₂, hresult, happend, hrest⟩ :=
      realizeAll_cons_eq_ok.1 hrun
    rw [leavesAll_cons, ← List.append_assoc]
    have hplan := framed_realize hstrict hreturn plan hresult
    exact framed_realizeAll hstrict hreturn rest (h.append hplan happend) hrest

end

/-! ### Plans inside realized plans -/

/-- Appending keeps the children and adds the new one. -/
theorem mem_append_children {children children' : List Node} {child : Option Node}
    {cursor cursor' : CommentCursor} (h : m.append children child cursor = .ok (children', cursor')) :
    children ⊆ children' ∧ ∀ node ∈ child, node ∈ children' := by
  cases child with
  | none =>
    obtain ⟨rfl, -⟩ : children = children' ∧ _ := by simpa [Mapping.append] using h
    exact ⟨List.Subset.refl _, by simp⟩
  | some child =>
    rcases append_eq_ok h with ⟨rfl, rfl, -⟩ | ⟨last, gap, -, -, -, rfl⟩ <;> simp

/-- Realizing plans keeps the children before them. -/
theorem subset_realizeAll {plans : List Plan} {children children' : List Node}
    {cursor cursor' : CommentCursor}
    (h : m.realizeAll plans children cursor = .ok (children', cursor')) : children ⊆ children' := by
  induction plans generalizing children cursor with
  | nil =>
    obtain ⟨rfl, -⟩ : children = children' ∧ _ := by simpa [realizeAll] using h
    exact List.Subset.refl _
  | cons plan rest ih =>
    obtain ⟨result, cursor₁, children₁, cursor₂, -, happend, h⟩ := realizeAll_cons_eq_ok.1 h
    exact List.Subset.trans (mem_append_children happend).1 (ih h)

/-- **Each of several plans** is realized, and its node is one of the children. -/
theorem exists_realize_of_mem {plans : List Plan} {plan : Plan} {children children' : List Node}
    {cursor cursor' : CommentCursor} (hmem : plan ∈ plans)
    (h : m.realizeAll plans children cursor = .ok (children', cursor')) :
    ∃ before result after, m.realize plan before = .ok (result, after) ∧
      ∀ node ∈ result, node ∈ children' := by
  obtain ⟨front, rest, rfl⟩ := List.append_of_mem hmem
  obtain ⟨children₁, cursor₁, -, h⟩ := realizeAll_append_eq_ok.1 h
  obtain ⟨result, cursor₂, children₂, cursor₃, hresult, happend, hrest⟩ :=
    realizeAll_cons_eq_ok.1 h
  exact ⟨cursor₁, result, cursor₂, hresult, fun node hnode =>
    subset_realizeAll hrest ((mem_append_children happend).2 node hnode)⟩

/-- The children of a group are in its node. -/
theorem exists_group?_of_mem {tags : List Tag} {label : String} {children : List Node} {node : Node}
    (h : node ∈ children) : ∃ whole ∈ Node.group? tags label children, node ∈ whole.preorder := by
  obtain ⟨first, rest, rfl⟩ := List.exists_cons_of_ne_nil (List.ne_nil_of_mem h)
  obtain ⟨last, -, hgroup⟩ := Node.group?_cons tags label first rest
  exact ⟨_, hgroup, Node.mem_preorder_of_mem_children h node.self_mem_preorder⟩

/-- **What is inside a realized plan** was realized too, and its node is below that of the plan. -/
theorem exists_realize_of_inside {plan sub : Plan} (hsub : plan.Inside sub)
    {cursor cursor' : CommentCursor} {result : Option Node}
    (h : m.realize plan cursor = .ok (result, cursor')) :
    ∃ before found after, m.realize sub before = .ok (found, after) ∧
      ∀ node ∈ found, ∃ whole ∈ result, node ∈ whole.preorder := by
  induction hsub with
  | self =>
    exact ⟨cursor, result, cursor', h, fun node hnode => ⟨node, hnode, node.self_mem_preorder⟩⟩
  | part _ hmem ih =>
    obtain ⟨before, found, after, hfound, hbelow⟩ := ih
    obtain ⟨children, hparts, rfl⟩ := realize_group_eq_ok.1 hfound
    obtain ⟨before', found', after', hfound', hchildren⟩ := exists_realize_of_mem hmem hparts
    refine ⟨before', found', after', hfound', fun node hnode => ?_⟩
    obtain ⟨group, hgroup, hnode⟩ := exists_group?_of_mem (hchildren node hnode)
    obtain ⟨whole, hwhole, hgroup⟩ := hbelow group hgroup
    exact ⟨whole, hwhole, Node.mem_preorder_trans hgroup hnode⟩

end Mapping

/-- The tokens of a plan inside another are tokens of it. -/
theorem Plan.Inside.leaves_subset {plan sub : Plan} (h : plan.Inside sub) :
    sub.leaves ⊆ plan.leaves := by
  induction h with
  | self => exact List.Subset.refl _
  | @part _ _ parts sub _ hmem ih =>
    obtain ⟨front, rest, rfl⟩ := List.append_of_mem hmem
    refine List.Subset.trans ?_ ih
    simp

/-- **The plan of a part** has the tokens the part records, up to their classes; a function type has
its keyword besides. -/
theorem Part.PlannedAs.recorded {part : Part} {plan : Plan} (h : part.PlannedAs plan) :
    plan.recorded.map untyped = part.recorded.map untyped ∨
      ∃ ty, part = .signature ty ∧
        plan.recorded.map untyped = (keyword? ty.func .funcKw ++ part.recorded).map untyped := by
  cases part with
  | expr place x =>
    obtain ⟨reading, tags, field, rfl⟩ := h
    exact .inl (x.untyped_plan reading tags field)
  | field role f =>
    obtain ⟨field, rfl⟩ := h
    exact .inl (congrArg _ (f.recorded_plan role field))
  | fields role list =>
    obtain ⟨tags, field, rfl⟩ := h
    exact .inl (congrArg _ (list.recorded_plan role tags field))
  | signature ty =>
    -- alone only its parts are planned; as a type it brings its keyword along
    rcases h with rfl | ⟨reading, tags, field, rfl⟩
    · exact .inl (congrArg _ ty.recorded_parts)
    · exact .inr ⟨ty, rfl, (Expr.funcType ty).untyped_plan reading tags field⟩
  | block b =>
    obtain ⟨tags, field, rfl⟩ := h
    exact .inl (congrArg _ (b.recorded_plan tags field))
  | stmt s =>
    rcases h with ⟨tags, field, rfl⟩ | ⟨b, tags, field, rfl, rfl⟩
    · exact .inl (s.untyped_plan tags field)
    · exact .inl (congrArg _ (b.recorded_plan tags field))
  | caseClause clause =>
    obtain ⟨reading, field, rfl⟩ := h
    exact .inl (congrArg _ (clause.recorded_plan reading field))
  | commClause clause =>
    obtain ⟨field, rfl⟩ := h
    exact .inl (congrArg _ (clause.recorded_plan field))
  | genDecl d =>
    obtain ⟨field, rfl⟩ := h
    exact .inl (congrArg _ (d.recorded_plan field))
  | spec kind s =>
    obtain ⟨field, rfl⟩ := h
    exact .inl (congrArg _ (s.recorded_plan kind field))
  | funcDecl d =>
    obtain ⟨field, rfl⟩ := h
    exact .inl (congrArg _ (d.recorded_plan field))

/-- **A node that is built for a part:** one that a plan of the part makes with the text. -/
def Part.BuiltAs (m : Mapping) (node : Node) (part : Part) : Prop :=
  ∃ plan cursor cursor', part.PlannedAs plan ∧ m.realize plan cursor = .ok (some node, cursor')

section

variable {m : Mapping} {part : Part} {plan : Plan} {cursor cursor' : CommentCursor}
  {result : Option Node} (hstrict : m.strictness = .strict) (hreturn : '\r' ∉ m.text)
  (hderived : part.Derived) (himplied : part.endsImplied = false)

include hstrict hreturn hderived himplied

/-- **A realized plan of a part** makes a node, which has the start and the end of the part. -/
theorem Part.PlannedAs.exists_node (hplanned : part.PlannedAs plan)
    (h : m.realize plan cursor = .ok (result, cursor')) :
    ∃ node ∈ result, part.Spans node.start node.stop ∧ (plan.Plain → node.start < node.stop) := by
  have hframed := Mapping.framed_realize hstrict hreturn plan h
  -- a signature may be planned with its keyword before it, all other parts as they are
  obtain ⟨front, hrecorded⟩ : ∃ front,
      plan.recorded.map untyped = (front ++ part.recorded).map untyped := by
    rcases hplanned.recorded with hrecorded | ⟨ty, -, hrecorded⟩
    · exact ⟨[], hrecorded⟩
    · exact ⟨_, hrecorded⟩
  have horder : InOrder (front ++ part.recorded) := InOrder.of_untyped hframed.order hrecorded
  obtain ⟨start, stop, hbetween, hspans⟩ := hderived.between himplied horder.right_of_append
  have hlast : result.toList.getLast?.map Node.stop = some stop := by
    have hsame : last? (plan.leaves.map Leaf.recorded) = last? (front ++ part.recorded) :=
      last?_eq_of_untyped hrecorded
    rw [hframed.last, hsame, last?_append, hbetween.last, Option.some_or]
  cases result with
  | none => cases hlast
  | some node =>
    obtain rfl : node.stop = stop := Option.some.inj hlast
    refine ⟨node, rfl, ?_, fun hplain => ?_⟩
    · rcases hplanned.recorded with hrecorded | ⟨ty, rfl, -⟩
      · have hfirst : some node.start = first? plan.recorded := hframed.first
        rw [first?_eq_of_untyped hrecorded, hbetween.first, Option.some_inj] at hfirst
        rwa [hfirst]
      · -- of a signature only the end is given by its form
        exact hspans
    · refine Between.lt ⟨hframed.first.symm, hframed.last.symm⟩ hframed.order ?_
      intro r hr
      obtain ⟨leaf, hleaf, rfl⟩ := List.mem_map.1 hr
      exact hframed.full leaf hleaf (hplain leaf hleaf)

theorem Part.BuiltAs.spans {node : Node} (h : part.BuiltAs m node) :
    part.Spans node.start node.stop := by
  obtain ⟨plan, cursor, cursor', hplanned, h⟩ := h
  obtain ⟨other, hnode, hspans, -⟩ := hplanned.exists_node hstrict hreturn hderived himplied h
  rwa [Option.some.inj hnode]

end

/-! ### Documents -/

theorem Decl.planned (d : Decl) (field : String) : d.part.PlannedAs (d.plan field) := by
  cases d <;> exact ⟨field, rfl⟩

theorem Decl.mem_elementsFrom {d : Decl} {list : List Decl} (h : d ∈ list) (i : Nat) :
    ∃ field, d.plan field ∈ Plan.elementsFrom Decl.plan i list := by
  induction list generalizing i with
  | nil => cases h
  | cons other list ih =>
    rcases List.mem_cons.1 h with rfl | h
    · exact ⟨_, List.mem_cons_self⟩
    · obtain ⟨field, hfield⟩ := ih h (i + 1)
      exact ⟨field, List.mem_cons_of_mem _ hfield⟩

/-- **Everything a file contains** has a plan inside the plan of its declarations. -/
theorem File.Contains.exists_plan {file : File} {part : Part} (h : file.Contains part) :
    ∃ sub, part.PlannedAs sub ∧ Plan.Inside (.group [.declList] "Decls([]Decl)"
      (Plan.elementsFrom Decl.plan 0 file.decls)) sub := by
  obtain ⟨d, hd, hinside⟩ := h
  obtain ⟨field, hfield⟩ := Decl.mem_elementsFrom hd 0
  obtain ⟨sub, hsub, hplanned⟩ := (d.planned field).inside hinside
  exact ⟨sub, hplanned, (Plan.Inside.part .self hfield).trans hsub⟩

/-- A document realizes the plan of the declarations of its file. -/
theorem exists_realize_of_mapFile {source : Source} {file : File} {strictness : Strictness}
    {doc : Document} (h : mapFile source file strictness = .ok doc) :
    ∃ before result after, Mapping.realize ⟨source, strictness⟩ (.group [.declList] "Decls([]Decl)"
        (Plan.elementsFrom Decl.plan 0 file.decls)) before = .ok (result, after) ∧
      ∀ node ∈ result, node ∈ doc.tree.children := by
  obtain ⟨comments, -, htree, -⟩ := mapFile_steps h
  unfold Mapping.fileNode at htree
  split at htree
  · cases htree
  · split at htree
    · cases htree
    · rename_i children cursor hparts
      obtain ⟨before, result, after, hresult, hmem⟩ :=
        Mapping.exists_realize_of_mem List.mem_cons_self hparts
      have hchildren : doc.tree.children = children :=
        Node.children_of_group? (Except.ok.inj htree)
      exact ⟨before, result, after, hresult, hchildren ▸ hmem⟩

/-- **Nodes have the starts and ends of what they are built for.**  Let a text without carriage
returns be parsed and mapped strictly.  Every part of the file but those that end in a statement left
out has a node in the tree of the document.  Whatever node is built for the part starts and stops
where the part does by its form, and the one in the tree stops later than it starts. -/
theorem mapFile_nativeSpans (path : String) (t : Text) (file : File) (doc : Document)
    (hreturn : '\r' ∉ t) (hparse : parse t = .ok file)
    (hdoc : mapFile ⟨path, t⟩ file .strict = .ok doc) :
    ∀ part, file.Contains part → part.endsImplied = false →
      (∃ node ∈ doc.tree.descendants, part.BuiltAs ⟨⟨path, t⟩, .strict⟩ node ∧
        part.Spans node.start node.stop ∧ node.start < node.stop) ∧
      ∀ node, part.BuiltAs ⟨⟨path, t⟩, .strict⟩ node → part.Spans node.start node.stop := by
  intro part hpart himplied
  have hderived := (derived_of_parse hparse).of_contains hpart
  let m : Mapping := ⟨⟨path, t⟩, .strict⟩
  have hreturn : '\r' ∉ m.text := hreturn
  refine ⟨?_, fun node hnode => Part.BuiltAs.spans rfl hreturn hderived himplied hnode⟩
  -- follow the part from the tree of the file to its plan, and the plan to its node
  obtain ⟨sub, hplanned, hsub⟩ := hpart.exists_plan
  obtain ⟨before, result, after, hdecls, hchildren⟩ := exists_realize_of_mapFile hdoc
  obtain ⟨before', found, after', hfound, hbelow⟩ := Mapping.exists_realize_of_inside hsub hdecls
  obtain ⟨node, rfl, hspans, hlt⟩ := hplanned.exists_node rfl hreturn hderived himplied hfound
  obtain ⟨whole, hwhole, hnode⟩ := hbelow node rfl
  refine ⟨node, ?_, ⟨sub, before', after', hplanned, hfound⟩, hspans, hlt fun leaf hleaf => ?_⟩
  · rw [Node.descendants_eq_preorder]
    exact Node.mem_preorder_of_mem_children (hchildren whole hwhole) hnode
  · exact file.plain_planned leaf (List.mem_append_right _ (hsub.leaves_subset hleaf))

/-- The node of a declaration starts at its keyword and stops with the call it ends in. -/
theorem mapFile_nativeSpans_call :
    ∃ file doc d, parse "package p\nvar x = f(1, a[0])\n".toList = .ok file ∧
      mapFile ⟨"p.go", "package p\nvar x = f(1, a[0])\n".toList⟩ file .strict = .ok doc ∧
      file.Contains (.genDecl d) ∧
      ∃ node ∈ doc.tree.descendants, node.start = 10 ∧ node.stop = 28 := by
  obtain ⟨file, hparse, hfile⟩ :
      ∃ file, parse "package p\nvar x = f(1, a[0])\n".toList = .ok file ∧
        ((mapFile ⟨"p.go", "package p\nvar x = f(1, a[0])\n".toList⟩ file .strict).isOk &&
          file.decls.any fun decl => decl.part.genDecl?.any fun d =>
            d.tokPos == 10 && d.stop == 28) = true := by
    refine exists_ok_and_of_any ?_
    decide +kernel
  obtain ⟨hok, hdecls⟩ := Bool.and_eq_true_iff.1 hfile
  obtain ⟨doc, hdoc⟩ := exists_ok_of_isOk hok
  obtain ⟨decl, hdecl, hgen⟩ := List.any_eq_true.1 hdecls
  obtain ⟨d, heq, hspan⟩ := (Option.any_eq_true _ _).1 hgen
  obtain ⟨hstart, hstop⟩ : d.tokPos = 10 ∧ d.stop = 28 := by simpa using hspan
  have hpart : file.Contains (.genDecl d) :=
    ⟨decl, hdecl, Part.genDecl?_eq_some_iff.1 heq ▸ .self⟩
  obtain ⟨⟨node, hnode, -, hspans, -⟩, -⟩ :=
    mapFile_nativeSpans "p.go" _ file doc (by decide) hparse hdoc _ hpart rfl
  exact ⟨file, doc, d, hparse, hdoc, hpart, node, hnode, hspans.1.trans hstart,
    hspans.2.trans hstop⟩

end GoTree
