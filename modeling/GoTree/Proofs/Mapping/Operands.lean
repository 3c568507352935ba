import GoTree.Proofs.Mapping.Bounds
import GoTree.Proofs.Mapping.Tallies
import Mathlib.Logic.Relation

/-!
# The tag of expressions

Which nodes are tagged as expressions is passed down from where an expression stands.  The node of
an expression carries the tags of its place, so it is tagged as one if its place says so.  The
operands stand in places that say the same; what a member is selected from and what is called are
never said to be expressions.  Where nothing says so, and without calls and function literals, no
node is tagged as an expression, and so none in a type is.

## Main definitions

* `Plan.tags`, `Plan.parts`: the tags of the node of a plan and the plans in it
* `Mapping.Calls`: the plans that realizing a plan calls for, and where
* `Mapping.Hands`: a sub-expression is mapped below a node, with the tags of its place
* `Expr.operands`, `Expr.heads`: the sub-expressions that are expressions if the whole is, and those
  that never are
* `Expr.Tagging`: how the nodes of an expression are tagged as expressions

## Main results

* `Mapping.exists_realize_of_calls`: what is called for is realized below
* `Expr.exists_tags_plan`: an expression adds its own tags to those of its place
* `Expr.tagging_realize`: the tag of expressions below a node of an expression
-/

namespace GoTree

open Plan

/-! ### Nodes below some nodes -/

namespace Node

variable {nodes : List Node} {node other : Node}

theorem mem_preorderAll_of_mem (h : node ∈ nodes) : node ∈ preorderAll nodes := by
  rw [preorderAll_eq_flatMap]
  exact List.mem_flatMap.2 ⟨node, h, node.self_mem_preorder⟩

theorem mem_preorderAll_trans (h : node ∈ preorderAll nodes) (h' : other ∈ node.preorder) :
    other ∈ preorderAll nodes := by
  rw [preorderAll_eq_flatMap, List.mem_flatMap] at h ⊢
  obtain ⟨top, htop, h⟩ := h
  exact ⟨top, htop, mem_preorder_trans h h'⟩

end Node

/-! ### Plans in the course of realizing a plan -/

/-- The tags of the node of a plan. -/
def Plan.tags : Plan → List Tag
  | .nothing => []
  | .token tags _ _ _ | .group tags _ _ => tags

/-- The plans in a plan. -/
def Plan.parts : Plan → List Plan
  | .nothing | .token _ _ _ _ => []
  | .group _ _ parts => parts

/-- **What is below a plan:** the plans in it, and those in them. -/
def Plan.Below : Plan → Plan → Prop :=
  Relation.TransGen fun whole sub => sub ∈ whole.parts

namespace Mapping

variable {m : Mapping}

/-- **Realizing a group calls for its parts,** each with the cursor that those before it leave. -/
inductive Calls (m : Mapping) : Plan × CommentCursor → Plan × CommentCursor → Prop
  | part {tags : List Tag} {label : String} {front rest : List Plan} {sub : Plan}
      {children : List Node} {cursor before : CommentCursor}
      (h : m.realizeAll front [] cursor = .ok (children, before)) :
      Calls m (.group tags label (front ++ sub :: rest), cursor) (sub, before)

/-- What is in a plan that is realized is called for. -/
theorem exists_calls_of_mem {plan sub : Plan} {cursor cursor' : CommentCursor}
    {result : Option Node} (hmem : sub ∈ plan.parts)
    (h : m.realize plan cursor = .ok (result, cursor')) :
    ∃ before, m.Calls (plan, cursor) (sub, before) := by
  cases plan with
  | nothing | token => cases hmem
  | group tags label parts =>
    obtain ⟨front, rest, rfl⟩ := List.append_of_mem hmem
    obtain ⟨children, hparts, -⟩ := realize_group_eq_ok.1 h
    obtain ⟨children₁, before, hfront, -⟩ := realizeAll_append_eq_ok.1 hparts
    exact ⟨before, .part hfront⟩

/-- What is called for is realized, and its node is one of the children. -/
theorem exists_realize_of_call {plan sub : Plan} {cursor before cursor' : CommentCursor}
    {result : Option Node} (hcall : m.Calls (plan, cursor) (sub, before))
    (h : m.realize plan cursor = .ok (result, cursor')) :
    ∃ found after, m.realize sub before = .ok (found, after) ∧
      ∀ child ∈ found, ∃ node ∈ result, child ∈ node.children := by
  cases hcall with
  | part hfront =>
    obtain ⟨children, hparts, rfl⟩ := realize_group_eq_ok.1 h
    obtain ⟨children₁, cursor₁, hfront', hparts⟩ := realizeAll_append_eq_ok.1 hparts
    -- the plans before it are realized once
    obtain ⟨rfl, rfl⟩ : _ = children₁ ∧ before = cursor₁ := by
      simpa using hfront.symm.trans hfront'
    obtain ⟨found, after, children₂, cursor₂, hfound, happend, hrest⟩ :=
      realizeAll_cons_eq_ok.1 hparts
    refine ⟨found, after, hfound, fun child hchild => ?_⟩
    have hmem : child ∈ children :=
      subset_realizeAll hrest ((mem_append_children happend).2 child hchild)
    obtain ⟨node, hnode, -⟩ := exists_group?_of_mem hmem
    exact ⟨node, hnode, by rwa [Node.children_of_group? hnode]⟩

/-- **What is called for** while a plan is realized is realized too, and its node is below that of
the plan. -/
theorem exists_realize_of_calls {plan sub : Plan} {cursor before cursor' : CommentCursor}
    {result : Option Node} (hcalls : Relation.TransGen m.Calls (plan, cursor) (sub, before))
    (h : m.realize plan cursor = .ok (result, cursor')) :
    ∃ found after, m.realize sub before = .ok (found, after) ∧
      ∀ child ∈ found, ∃ node ∈ result, child ∈ Node.preorderAll node.children := by
  generalize hcallee : (sub, before) = callee at hcalls
  -- the last call is made by a plan that is realized below
  induction hcalls generalizing sub before with
  | single hcall =>
    subst hcallee
    obtain ⟨found, after, hfound, hbelow⟩ := exists_realize_of_call hcall h
    refine ⟨found, after, hfound, fun child hchild => ?_⟩
    obtain ⟨node, hnode, hchild⟩ := hbelow child hchild
    exact ⟨node, hnode, Node.mem_preorderAll_of_mem hchild⟩
  | @tail caller _ _ hcall ih =>
    subst hcallee
    obtain ⟨middle, start⟩ := caller
    obtain ⟨made, after, hmade, hbelow⟩ := ih rfl
    obtain ⟨found, after', hfound, hinner⟩ := exists_realize_of_call hcall hmade
    refine ⟨found, after', hfound, fun child hchild => ?_⟩
    obtain ⟨inner, hinner, hchild⟩ := hinner child hchild
    obtain ⟨node, hnode, hbelow⟩ := hbelow inner hinner
    exact ⟨node, hnode, Node.mem_preorderAll_trans hbelow
      (Node.mem_preorder_of_mem_children hchild child.self_mem_preorder)⟩

/-- What is below a plan that is realized is called for. -/
theorem exists_calls_of_below {plan sub : Plan} {cursor cursor' : CommentCursor}
    {result : Option Node} (hsub : plan.Below sub)
    (h : m.realize plan cursor = .ok (result, cursor')) :
    ∃ before, Relation.TransGen m.Calls (plan, cursor) (sub, before) := by
  induction hsub with
  | single hmem =>
    obtain ⟨before, hcall⟩ := exists_calls_of_mem hmem h
    exact ⟨before, .single hcall⟩
  | tail _ hmem ih =>
    obtain ⟨before, hcalls⟩ := ih
    obtain ⟨found, after, hfound, -⟩ := exists_realize_of_calls hcalls h
    obtain ⟨before', hcall⟩ := exists_calls_of_mem hmem hfound
    exact ⟨before', hcalls.tail hcall⟩

/-- The node of a plan has its tags. -/
theorem tags_realize {plan : Plan} {cursor cursor' : CommentCursor} {node : Node}
    (h : m.realize plan cursor = .ok (some node, cursor')) : node.tags = plan.tags := by
  cases plan with
  | nothing => cases (realize_nothing_eq_ok.1 h).1
  | token tags pos text label =>
    obtain ⟨value, p, -, -, -, rfl⟩ :=
      leafAt_eq_ok_some (expect_eq_ok_some (realize_token_eq_ok.1 h).1).1
    rfl
  | group tags label parts =>
    obtain ⟨children, -, hgroup⟩ := realize_group_eq_ok.1 h
    cases children with
    | nil => cases hgroup
    | cons first rest =>
      obtain ⟨last, -, hmade⟩ := Node.group?_cons tags label first rest
      rw [Option.some.inj (hgroup.trans hmade)]
      rfl

/-- **A sub-expression is mapped below a node** while the plan of the node is realized from a
cursor, in a place that gives it some tags.  Its node is tagged as an expression if these tags say
so. -/
def Hands (m : Mapping) (plan : Plan) (cursor : CommentCursor) (node : Node) (tags : List Tag)
    (field : String) (x : Expr) : Prop :=
  ∃ before found after,
    Relation.TransGen m.Calls (plan, cursor) (x.plan .value tags field, before) ∧
    m.realize (x.plan .value tags field) before = .ok (found, after) ∧
    ∀ child ∈ found, child ∈ Node.preorderAll node.children ∧
      (child.hasTag .expression = true ↔ .expression ∈ tags)

end Mapping

/-! ### Expressions -/

namespace Expr

/-- **The sub-expressions that are expressions if the whole is one,** with the fields they fill.  A
type in parentheses or behind a star is not. -/
def operands (reading : Reading) : Expr → List (String × Expr)
  | .binary x _ _ y => [("X", x), ("Y", y)]
  | .unary _ _ x => [("X", x)]
  | .star _ x | .paren _ x _ =>
    match reading with
    | .value => [("X", x)]
    | .type => []
  | .index x _ i _ => [("X", x), ("Index", i)]
  | .slice x _ low high max _ _ =>
    [("X", x)] ++ low.toList.map (("Low", ·)) ++ high.toList.map (("High", ·)) ++
      max.toList.map (("Max", ·))
  | .typeAssert x _ _ _ => [("X", x)]
  | .keyValue key _ value => [("Key", key), ("Value", value)]
  | .compositeLit _ _ elts _ => elts.zipIdx.map fun elt => (elementField elt.2, elt.1)
  | _ => []

/-- **The sub-expressions that are never expressions:** what a member is selected from and what is
called, with the fields they fill. -/
def heads : Expr → List (String × Expr)
  | .selector x _ => [("X", x)]
  | .call callee _ _ _ _ => [("Fun", callee)]
  | _ => []

variable {reading : Reading} {tags : List Tag} {field : String}

/-- **An expression adds its own tags** to those of its place, and never the tag of expressions. -/
theorem exists_tags_plan (x : Expr) (reading : Reading) (tags : List Tag) (field : String) :
    ∃ own, (x.plan reading tags field).tags = tags ++ own ∧ .expression ∉ own := by
  have htallied : Tag.isTallied .expression = true := by decide
  cases x with
  | ident i => exact ⟨i.tags, rfl, i.notMem_tags htallied⟩
  | basicLit lit => exact ⟨lit.tags, rfl, lit.notMem_tags htallied⟩
  | ellipsis pos elt => cases elt <;> exact ⟨[], (List.append_nil tags).symm, List.not_mem_nil⟩
  | funcLit | selector | index | call => exact ⟨_, rfl, by decide⟩
  | paren | star =>
    cases reading with
    | value => exact ⟨_, rfl, by decide⟩
    | type => exact ⟨[], (List.append_nil tags).symm, List.not_mem_nil⟩
  | unary opPos op x => exact ⟨op.tags, rfl, op.notMem_tags htallied⟩
  | binary x opPos op y =>
    exact ⟨op.tags, rfl, fun hmem => absurd ((op.mem_tags_iff htallied).1 hmem) (by decide)⟩
  | _ => exact ⟨[], (List.append_nil tags).symm, List.not_mem_nil⟩

/-- The elements of a list are planned one by one. -/
theorem mem_plans {list : List Expr} {i : Nat} {elt : Expr × Nat} (h : elt ∈ list.zipIdx i) :
    elt.1.plan reading tags (elementField elt.2) ∈ Expr.plans reading tags i list := by
  induction list generalizing i with
  | nil => cases h
  | cons x list ih =>
    rw [List.zipIdx_cons, List.mem_cons] at h
    rcases h with rfl | h
    · exact List.mem_cons_self
    · exact List.mem_cons_of_mem _ (ih h)

/-- The tag of expressions is handed on to a role without it. -/
theorem mem_nested_iff {role : List Tag} (hrole : .expression ∉ role) :
    .expression ∈ nested tags role ↔ .expression ∈ tags := by
  unfold nested
  split
  · rename_i hexpr
    simpa using List.contains_iff_mem.1 hexpr
  · rename_i hexpr
    exact iff_of_false hrole fun hmem => hexpr (List.contains_iff_mem.2 hmem)

/-- **The plan of an operand** is below that of the whole, and is given the tag of expressions if
that one is. -/
theorem below_operand {x : Expr} {operand : String × Expr} (h : operand ∈ x.operands reading) :
    ∃ given, (.expression ∈ given ↔ .expression ∈ tags) ∧
      (x.plan reading tags field).Below (operand.2.plan .value given operand.1) := by
  -- in all places but one the operand is planned in the whole itself
  have hplanned (role : List Tag) (hrole : .expression ∉ role)
      (hmem : operand.2.plan .value (nested tags role) operand.1 ∈
        (x.plan reading tags field).parts) :
      ∃ given, (.expression ∈ given ↔ .expression ∈ tags) ∧
        (x.plan reading tags field).Below (operand.2.plan .value given operand.1) :=
    ⟨_, mem_nested_iff hrole, .single hmem⟩
  cases x with
  | binary x opPos op y =>
    simp only [operands, List.mem_cons, List.not_mem_nil, or_false] at h
    rcases h with rfl | rfl
    · exact hplanned [.leftOperand] (by decide) (by simp [Expr.plan, Plan.parts])
    · exact hplanned [.rightOperand] (by decide) (by simp [Expr.plan, Plan.parts])
  | unary opPos op x =>
    obtain rfl := List.mem_singleton.1 h
    exact hplanned [.operand] (by decide) (by simp [Expr.plan, Plan.parts])
  | star pos x =>
    cases reading with
    | type => cases h
    | value =>
      obtain rfl := List.mem_singleton.1 h
      exact hplanned [.operand] (by decide) (by simp [Expr.plan, Plan.parts])
  | paren lparen x rparen =>
    cases reading with
    | type => cases h
    | value =>
      obtain rfl := List.mem_singleton.1 h
      exact hplanned [] (by decide) (by simp [Expr.plan, Plan.parts])
  | index x lbrack i rbrack =>
    simp only [operands, List.mem_cons, List.not_mem_nil, or_false] at h
    rcases h with rfl | rfl
    · exact hplanned [.arrayObjectExpression] (by decide) (by simp [Expr.plan, Plan.parts])
    · exact hplanned [.arrayKeyExpression] (by decide) (by simp [Expr.plan, Plan.parts])
  | slice x lbrack low high max slice3 rbrack =>
    refine hplanned [] (by decide) ?_
    simp only [operands, List.mem_append, List.mem_singleton, List.mem_map,
      Option.mem_toList] at h
    rcases h with ((rfl | ⟨y, rfl, rfl⟩) | ⟨y, rfl, rfl⟩) | ⟨y, rfl, rfl⟩ <;>
      simp [Expr.plan, Expr.plan?, Plan.parts]
  | typeAssert x lparen ty rparen =>
    obtain rfl := List.mem_singleton.1 h
    exact hplanned [] (by decide) (by simp [Expr.plan, Plan.parts])
  | keyValue key colon value =>
    refine hplanned [] (by decide) ?_
    simp only [operands, List.mem_cons, List.not_mem_nil, or_false] at h
    rcases h with rfl | rfl <;> simp [Expr.plan, Plan.parts]
  | compositeLit ty lbrace elts rbrace =>
    -- the elements have a group of their own
    obtain ⟨elt, helt, rfl⟩ := List.mem_map.1 h
    refine ⟨nested tags [], mem_nested_iff List.not_mem_nil,
      .tail (.single (?_ : Plan.group [] "Elts([]Expr)" _ ∈ _)) (mem_plans helt)⟩
    simp [Expr.plan, Plan.parts]
  | _ => cases h

/-- The plan of what is selected from or called is below that of the whole, with no tags. -/
theorem below_head {x : Expr} {head : String × Expr} (h : head ∈ x.heads) :
    (x.plan reading tags field).Below (head.2.plan .value [] head.1) := by
  cases x <;> simp only [heads, List.mem_singleton, List.not_mem_nil] at h
  all_goals
    subst h
    exact .single List.mem_cons_self

/-- **How the nodes of an expression are tagged as expressions**, if it is mapped from a cursor in a
place that gives it some tags. -/
structure Tagging (m : Mapping) (x : Expr) (reading : Reading) (tags : List Tag) (field : String)
    (cursor : CommentCursor) (node : Node) : Prop where
  /-- The tags of the place come first. -/
  starts_with_place : tags <+: node.tags
  /-- The node is tagged as an expression if the place says so. -/
  tagged_iff : node.hasTag .expression = true ↔ .expression ∈ tags
  /-- The operands are mapped as expressions if the whole is. -/
  operand : ∀ operand ∈ x.operands reading, ∃ given, (.expression ∈ given ↔ .expression ∈ tags) ∧
    m.Hands (x.plan reading tags field) cursor node given operand.1 operand.2
  /-- What is selected from or called is not. -/
  head : ∀ head ∈ x.heads, m.Hands (x.plan reading tags field) cursor node [] head.1 head.2
  /-- Without calls and function literals nothing else is tagged as an expression. -/
  untagged : .expression ∉ tags → (Part.expr .plain x).CallFree → ∀ other ∈ node.preorder,
    other.hasTag .expression = false

variable {m : Mapping} {cursor cursor' : CommentCursor} {node : Node}

theorem prefix_tags_realize {x : Expr}
    (h : m.realize (x.plan reading tags field) cursor = .ok (some node, cursor')) :
    tags <+: node.tags ∧ (node.hasTag .expression = true ↔ .expression ∈ tags) := by
  obtain ⟨own, htags, hown⟩ := x.exists_tags_plan reading tags field
  have hnode : node.tags = tags ++ own := (Mapping.tags_realize h).trans htags
  refine ⟨⟨own, hnode.symm⟩, ?_⟩
  rw [Node.hasTag, List.contains_iff_mem, hnode, List.mem_append, or_iff_left hown]

/-- A sub-expression whose plan is below that of the whole is mapped below its node. -/
theorem hands_of_below {x sub : Expr} {given : List Tag} {field' : String}
    (hsub : (x.plan reading tags field).Below (sub.plan .value given field'))
    (h : m.realize (x.plan reading tags field) cursor = .ok (some node, cursor')) :
    m.Hands (x.plan reading tags field) cursor node given field' sub := by
  obtain ⟨before, hcalls⟩ := Mapping.exists_calls_of_below hsub h
  obtain ⟨found, after, hfound, hbelow⟩ := Mapping.exists_realize_of_calls hcalls h
  refine ⟨before, found, after, hcalls, hfound, fun child hchild => ?_⟩
  obtain ⟨whole, hwhole, hmem⟩ := hbelow child hchild
  obtain rfl := Option.some.inj hwhole
  obtain rfl := Option.mem_def.1 hchild
  exact ⟨hmem, (prefix_tags_realize hfound).2⟩

/-- **The tag of expressions** in what an expression is mapped to, in a value or in a type, with any
tags and at any comment. -/
theorem tagging_realize (m : Mapping) (x : Expr) (reading : Reading) (tags : List Tag)
    (field : String) (comments : List Comment) (cursor cursor' : CommentCursor) (node : Node)
    (hcomments : m.commentLeaves comments = .ok cursor.toList)
    (h : m.realize (x.plan reading tags field) cursor = .ok (some node, cursor')) :
    x.Tagging m reading tags field cursor node where
  starts_with_place := (prefix_tags_realize h).1
  tagged_iff := (prefix_tags_realize h).2
  operand operand hmem := by
    obtain ⟨given, hgiven, hbelow⟩ := below_operand hmem
    exact ⟨given, hgiven, hands_of_below hbelow h⟩
  head head hmem := hands_of_below (below_head hmem) h
  untagged htags hfree := by
    -- the plan has no such node, and a realized plan has no more than it plans
    have hplanned : (Part.expr .plain x).PlannedWithout .expression (x.plan reading tags field) :=
      x.plannedWithout htags
    have hplan := hplanned.tagged_expression rfl hfree
    have hcursor : ∀ comment ∈ cursor.toList, Node.tagged .expression [comment] = 0 :=
      Mapping.tagged_commentLeaves hcomments (by decide) (by decide)
    have hmade := (Mapping.madeFor_realize (by decide) _ hcursor h).2.le
    rw [hplan, Nat.le_zero, Option.toList_some, Node.tagged_eq_zero_iff] at hmade
    simpa [Node.preorderAll] using hmade

/-- An operand in parentheses behind a sign: all of it are expressions but what stands in the
selection of the member. -/
theorem tagging_realize_sign :
    ∃ (m : Mapping) (x : Expr) (node : Node) (cursor' : CommentCursor),
      m = ⟨⟨"p.go", "-(p.n + xs[1])".toList⟩, .strict⟩ ∧
      m.realize (x.plan .value [.assignmentValue, .expression] "[0]") (.start []) =
        .ok (some node, cursor') ∧
      x.Tagging m .value [.assignmentValue, .expression] "[0]" (.start []) node ∧
      (node.preorder.filter (·.hasTag .expression)).map Node.label =
        ["[0](UnaryExpr)", "X(ParenExpr)", "X(BinaryExpr)", "X(SelectorExpr)", "Y(IndexExpr)",
          "X(Ident)", "Index(BasicLit)"] := by
  let m : Mapping := ⟨⟨"p.go", "-(p.n + xs[1])".toList⟩, .strict⟩
  let sum : Expr := .binary (.selector (.ident ⟨2, "p"⟩) ⟨4, "n"⟩) 6 .add
    (.index (.ident ⟨8, "xs"⟩) 10 (.basicLit ⟨11, .int, "1"⟩) 12)
  let x : Expr := .unary 0 .minus (.paren 1 sum 13)
  obtain ⟨⟨result, cursor'⟩, hmade, hlabels⟩ : ∃ made,
      m.realize (x.plan .value [.assignmentValue, .expression] "[0]") (.start []) = .ok made ∧
      (made.1.any fun node => (node.preorder.filter (·.hasTag .expression)).map Node.label ==
        ["[0](UnaryExpr)", "X(ParenExpr)", "X(BinaryExpr)", "X(SelectorExpr)", "Y(IndexExpr)",
          "X(Ident)", "Index(BasicLit)"]) = true := by
    refine exists_ok_and_of_any ?_
    decide +kernel
  cases result with
  | none => cases hlabels
  | some node =>
    exact ⟨m, x, node, cursor', rfl, hmade,
      tagging_realize m x .value _ _ [] (.start []) cursor' node rfl hmade, by simpa using hlabels⟩

end Expr

end GoTree
