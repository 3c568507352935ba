import GoTree.Proofs.Mapping.TagCount
import GoTree.Proofs.Syntax.Census

/-!
# Tagged nodes of plans

Each kind of construct has a tag of its own, which the plan of such a construct gives to one node.
No other construct gives it to a node, and none hands it on to its parts.  So the nodes of a plan
that carry the tag are the one for the construct itself, if it is of that kind, and those of the
plans of its parts.  The same holds of the tag of expressions, which no construct adds of its own,
as long as there are no calls, function literals or statements.

## Main definitions

* `Construct.tag`: the tag of a kind of construct
* `Part.PlannedWithout`: the plans of a part in places that do not give it a tag
* `Tallies`: plans that have as many tagged nodes as plans of some parts
* `Part.Marked`: a plan that has one more if its part is of the kind
* `Part.CallFree`: no call and no function literal

## Main results

* `Expr.marked`, `Stmt.marked`, `Part.PlannedWithout.marked`: the plans of constructs
* `Part.PlannedWithout.tagged_of_marked`, `Part.PlannedWithout.tagged_eq`: the tagged nodes of a
  plan, counted over all parts
* `Part.PlannedWithout.tagged_expression`: expressions in types and operands
-/

namespace GoTree

open Plan

/-! ### Tags of constructs -/

namespace Construct

/-- **The tag of the constructs of a kind.** -/
def tag : Construct → Tag
  | .function => .function
  | .functionLiteral => .functionLiteral
  | .call => .call
  | .ifThen => .ifThen
  | .switch => .switch
  | .caseClause => .caseClause
  | .loop => .loop
  | .returns => .returns
  | .assignment => .assignment
  | .binary => .binaryExpression
  | .memberSelect => .memberSelect
  | .label => .label

theorem tag_injective {kind kind' : Construct} (h : kind.tag = kind'.tag) : kind = kind' := by
  cases kind <;> cases kind' <;> first | rfl | exact absurd h (by decide)

/-- The kind whose tag this is. -/
def ofTag? : Tag → Option Construct
  | .function => some .function
  | .functionLiteral => some .functionLiteral
  | .call => some .call
  | .ifThen => some .ifThen
  | .switch => some .switch
  | .caseClause => some .caseClause
  | .loop => some .loop
  | .returns => some .returns
  | .assignment => some .assignment
  | .binaryExpression => some .binary
  | .memberSelect => some .memberSelect
  | .label => some .label
  | _ => none

@[simp]
theorem ofTag?_tag (kind : Construct) : ofTag? kind.tag = some kind := by
  cases kind <;> rfl

end Construct

namespace Tag

/-- Whether a tag is the tag of a kind of construct. -/
def isCounted (tag : Tag) : Bool :=
  (Construct.ofTag? tag).isSome

/-- Whether a tag is such a tag or the tag of expressions. -/
def isTallied (tag : Tag) : Bool :=
  tag.isCounted || tag == .expression

theorem isTallied_of_isCounted {tag : Tag} (h : tag.isCounted = true) : tag.isTallied = true := by
  rw [isTallied, h, Bool.true_or]

@[simp]
theorem isCounted_tag (kind : Construct) : kind.tag.isCounted = true := by
  simp [isCounted]

/-- A tag is none of those that do not have a property that it has. -/
theorem notMem_of_all {p : Tag → Bool} {tag : Tag} {tags : List Tag} (hp : p tag = true)
    (h : (tags.all fun other => !p other) = true) : tag ∉ tags := by
  intro hmem
  simpa [hp] using List.all_eq_true.1 h tag hmem

end Tag

section

variable {tag : Tag}

/-- The tag of expressions is the only one that a part takes from the whole. -/
theorem Plan.notMem_nested {whole role : List Tag} (hwhole : tag ∉ whole) (hrole : tag ∉ role) :
    tag ∉ nested whole role := by
  unfold nested
  split
  · rename_i hexpr
    rw [List.mem_append, not_or, List.mem_singleton]
    refine ⟨hrole, ?_⟩
    rintro rfl
    exact hwhole (List.contains_iff_mem.1 hexpr)
  · exact hrole

variable (htag : tag.isTallied = true)

include htag

theorem Ident.notMem_tags (ident : Ident) : tag ∉ ident.tags := by
  unfold tags
  split
  · exact Tag.notMem_of_all htag (by decide)
  · split <;> exact Tag.notMem_of_all htag (by decide)

theorem BasicLit.notMem_tags (lit : BasicLit) : tag ∉ lit.tags := by
  -- the base of an integer is read off its text
  have hbase : tag ≠ integerBase lit.value := by
    rintro rfl
    revert htag
    unfold integerBase
    split
    · split
      · decide
      · split <;> decide
    · decide
  unfold tags
  split
  · exact Tag.notMem_of_all htag (by decide)
  · exact Tag.notMem_of_all htag (by decide)
  · exact Tag.notMem_of_all htag (by decide)
  · exact Tag.notMem_of_all htag (by decide)
  · have hothers : tag ∉ [Tag.literal, .intLiteral] := Tag.notMem_of_all htag (by decide)
    simp only [List.mem_cons, List.not_mem_nil, or_false, not_or] at hothers ⊢
    exact ⟨hothers.1, hothers.2, hbase⟩

theorem BinaryOp.mem_tags_iff (op : BinaryOp) : tag ∈ op.tags ↔ tag = .binaryExpression := by
  have hothers : tag ∉ op.tags.tail := Tag.notMem_of_all htag (by cases op <;> decide)
  have hsplit : op.tags = .binaryExpression :: op.tags.tail := rfl
  rw [hsplit, List.mem_cons, or_iff_left hothers]

theorem AssignOp.mem_tags_iff (op : AssignOp) : tag ∈ op.tags ↔ tag = .assignment := by
  have hothers : tag ∉ op.tags.tail := Tag.notMem_of_all htag (by cases op <;> decide)
  have hsplit : op.tags = .assignment :: op.tags.tail := by cases op <;> rfl
  rw [hsplit, List.mem_cons, or_iff_left hothers]

theorem UnaryOp.notMem_tags (op : UnaryOp) : tag ∉ op.tags :=
  Tag.notMem_of_all htag (by cases op <;> decide)

end

/-! ### Plans that have the tagged nodes of their parts -/

/-- **The plans of a part where its place does not give it the tag.** -/
def Part.PlannedWithout (tag : Tag) (part : Part) (plan : Plan) : Prop :=
  match part with
  | .expr _ x => ∃ reading tags field, tag ∉ tags ∧ plan = x.plan reading tags field
  | .field role f => ∃ field, plan = f.plan role field
  | .fields role list => ∃ tags field, tag ∉ tags ∧ plan = list.plan role tags field
  | .signature ty => plan = .group [] (labelOf "Type" "FuncType") ty.parts ∨
      ∃ reading tags field, tag ∉ tags ∧ plan = (Expr.funcType ty).plan reading tags field
  | .block b => ∃ tags field, tag ∉ tags ∧ plan = b.plan tags field
  | .stmt s => (∃ tags field, tag ∉ tags ∧ plan = s.plan tags field) ∨
      ∃ b tags field, tag ∉ tags ∧ s = .block b ∧ plan = b.plan tags field
  | .caseClause clause => ∃ reading field, plan = clause.plan reading field
  | .commClause clause => ∃ field, plan = clause.plan field
  | .genDecl d => ∃ field, plan = d.plan field
  | .spec kind s => ∃ field, plan = s.plan kind field
  | .funcDecl d => ∃ field, plan = d.plan field

/-- **Plans that have as many tagged nodes as plans of some parts.** -/
def Tallies (tag : Tag) (plans : List Plan) (parts : List Part) : Prop :=
  ∃ subs, List.Forall₂ (Part.PlannedWithout tag) parts subs ∧
    taggedAll tag plans = taggedAll tag subs

/-- Whether the tag is the one of the kind of a part. -/
def Part.marks (tag : Tag) (part : Part) : Bool :=
  part.construct?.map Construct.tag = some tag

/-- **A plan that has the tagged nodes of its parts**, and one more if its part is of the kind that
is tagged. -/
def Part.Marked (tag : Tag) (part : Part) (plan : Plan) : Prop :=
  ∃ subs, List.Forall₂ (Part.PlannedWithout tag) part.children subs ∧
    plan.tagged tag = (if part.marks tag then 1 else 0) + taggedAll tag subs

namespace Tallies

variable {tag : Tag} {plans more : List Plan} {parts others : List Part} {plan : Plan} {part : Part}

theorem nil : Tallies tag [] [] :=
  ⟨[], .nil, rfl⟩

theorem append (h : Tallies tag plans parts) (h' : Tallies tag more others) :
    Tallies tag (plans ++ more) (parts ++ others) := by
  obtain ⟨subs, hsubs, hcount⟩ := h
  obtain ⟨subs', hsubs', hcount'⟩ := h'
  refine ⟨subs ++ subs', List.rel_append hsubs hsubs', ?_⟩
  rw [taggedAll_append, taggedAll_append, hcount, hcount']

/-- Plans of no parts behind others. -/
theorem left (h : Tallies tag plans parts) (h' : Tallies tag more []) :
    Tallies tag (plans ++ more) parts := by
  simpa using h.append h'

/-- Plans of no parts before others. -/
theorem right (h : Tallies tag plans []) (h' : Tallies tag more parts) :
    Tallies tag (plans ++ more) parts :=
  h.append h'

/-- What the first plan has, and plans of no parts behind it. -/
theorem head (h : Tallies tag [plan] parts) (h' : Tallies tag more []) :
    Tallies tag (plan :: more) parts :=
  h.left h'

/-- The plan of a part. -/
theorem single (h : part.PlannedWithout tag plan) : Tallies tag [plan] [part] :=
  ⟨[plan], .cons h .nil, rfl⟩

theorem cons (h : part.PlannedWithout tag plan) (h' : Tallies tag plans parts) :
    Tallies tag (plan :: plans) (part :: parts) :=
  (single h).append h'

/-- A plan without tagged nodes, of none of the parts. -/
theorem skip (hplan : plan.tagged tag = 0) (h : Tallies tag plans parts) :
    Tallies tag (plan :: plans) parts := by
  obtain ⟨subs, hsubs, hcount⟩ := h
  exact ⟨subs, hsubs, by rw [taggedAll_cons, hplan, Nat.zero_add, hcount]⟩

/-- A group without the tag has the tagged nodes of its parts. -/
theorem group {tags : List Tag} {label : String} (htags : tag ∉ tags)
    (h : Tallies tag plans parts) : Tallies tag [.group tags label plans] parts := by
  obtain ⟨subs, hsubs, hcount⟩ := h
  refine ⟨subs, hsubs, ?_⟩
  simp [Plan.tagged, htags, hcount]

end Tallies

namespace Part.Marked

variable {tag : Tag} {plans : List Plan} {part : Part} {tags : List Tag} {label : String}

/-- The plan of a construct that is one token. -/
theorem leaf {pos : Offset} {text : String} (hkind : part.construct? = none)
    (hchildren : part.children = []) (htags : tag ∉ tags) :
    part.Marked tag (.token tags pos text label) := by
  refine ⟨[], by rw [hchildren]; exact .nil, ?_⟩
  simp [Plan.tagged, htags, marks, hkind]

/-- **The plan of a construct of no kind that is counted.** -/
theorem other (hkind : part.construct? = none) (htags : tag ∉ tags)
    (h : Tallies tag plans part.children) : part.Marked tag (.group tags label plans) := by
  obtain ⟨subs, hsubs, hcount⟩ := h
  refine ⟨subs, hsubs, ?_⟩
  simp [Plan.tagged, htags, hcount, marks, hkind]

/-- **The plan of a construct of a kind that is counted** is a group with the tag of the kind. -/
theorem construct (kind : Construct) (hkind : part.construct? = some kind)
    (htags : tag ∈ tags ↔ tag = kind.tag) (hleaves : leavesAll plans ≠ [])
    (h : Tallies tag plans part.children) : part.Marked tag (.group tags label plans) := by
  obtain ⟨subs, hsubs, hcount⟩ := h
  refine ⟨subs, hsubs, ?_⟩
  simp [Plan.tagged, htags, hleaves, hcount, marks, hkind, eq_comm]

end Part.Marked

/-! ### Tokens -/

namespace Tallies

variable {tag : Tag} {plans : List Plan} {parts : List Part} {tags : List Tag} {pos : Offset}
  {label : String}

theorem symbol {s : Symbol} (htags : tag ∉ tags) (h : Tallies tag plans parts) :
    Tallies tag (.symbol tags pos s label :: plans) parts :=
  .skip (if_neg htags) h

theorem keyword {word : Keyword} (htags : tag ∉ tags ++ [.keyword]) (h : Tallies tag plans parts) :
    Tallies tag (.keyword tags pos word label :: plans) parts :=
  .skip (if_neg htags) h

theorem symbol? {pos : Option Offset} {s : Symbol} (htags : tag ∉ tags) :
    Tallies tag (Plan.symbol? tags pos s label) [] := by
  cases pos with
  | none => exact .nil
  | some pos => exact .symbol htags .nil

theorem keyword? {pos : Option Offset} {word : Keyword} (htags : tag ∉ tags ++ [.keyword]) :
    Tallies tag (Plan.keyword? tags pos word label) [] := by
  cases pos with
  | none => exact .nil
  | some pos => exact .keyword htags .nil

end Tallies

section

variable {tag : Tag} (htag : tag.isTallied = true) {reading : Reading} {place : Place}
  {role : FieldRole} {tags : List Tag} {field : String}

theorem Expr.plannedWithout (x : Expr) (htags : tag ∉ tags) :
    (Part.expr place x).PlannedWithout tag (x.plan reading tags field) :=
  ⟨reading, tags, field, htags, rfl⟩

theorem FieldList.plannedWithout (list : FieldList) (htags : tag ∉ tags) :
    (Part.fields role list).PlannedWithout tag (list.plan role tags field) :=
  ⟨tags, field, htags, rfl⟩

theorem Block.plannedWithout (b : Block) (htags : tag ∉ tags) :
    (Part.block b).PlannedWithout tag (b.plan tags field) :=
  ⟨tags, field, htags, rfl⟩

theorem Stmt.plannedWithout (s : Stmt) (htags : tag ∉ tags) :
    (Part.stmt s).PlannedWithout tag (s.plan tags field) :=
  .inl ⟨tags, field, htags, rfl⟩

theorem Expr.tallies_plans (list : List Expr) (i : Nat) (htags : tag ∉ tags) :
    Tallies tag (Expr.plans reading tags i list) (list.map (.expr place)) := by
  induction list generalizing i with
  | nil => exact .nil
  | cons x list ih => exact .cons (x.plannedWithout htags) (ih (i + 1))

theorem Expr.tallies_plan? (x : Option Expr) (htags : tag ∉ tags) :
    Tallies tag (Expr.plan? reading tags field x) (x.toList.map (.expr place)) := by
  cases x with
  | none => exact .nil
  | some x => exact .single (x.plannedWithout htags)

/-- A block has braces. -/
theorem Block.leaves_plan_ne_nil (b : Block) : (b.plan tags field).leaves ≠ [] := by
  cases b
  simp [Block.plan, Plan.symbol]

include htag

theorem Ident.tagged_plan (ident : Ident) (htags : tag ∉ tags) :
    (ident.plan tags field).tagged tag = 0 :=
  if_neg fun hmem => (List.mem_append.1 hmem).elim htags (ident.notMem_tags htag)

theorem BasicLit.tagged_plan (lit : BasicLit) (htags : tag ∉ tags) :
    (lit.plan tags field).tagged tag = 0 :=
  if_neg fun hmem => (List.mem_append.1 hmem).elim htags (lit.notMem_tags htag)

theorem Ident.tagged_listPlan (names : List Ident) (htags : tag ∉ tags) :
    (Ident.listPlan names tags).tagged tag = 0 := by
  have helements (i : Nat) :
      taggedAll tag (elementsFrom (fun name field => Ident.plan name tags field) i names) = 0 := by
    induction names generalizing i with
    | nil => rfl
    | cons name names ih =>
      rw [elementsFrom, taggedAll_cons, name.tagged_plan htag htags, ih]
  simp [Ident.listPlan, Plan.tagged, helements]

theorem FuncType.tallies_parts (ty : FuncType) :
    Tallies tag ty.parts (Part.signature ty).children := by
  obtain ⟨func, params, results⟩ := ty
  refine .cons (params.plannedWithout (Tag.notMem_of_all htag (by decide))) ?_
  cases results with
  | none => exact .nil
  | some results =>
    exact .single (results.plannedWithout (Tag.notMem_of_all htag (by decide)))

/-! ### Expressions and types -/

/-- **The plan of an expression.**  The tag of expressions is given to the arguments of calls and
inside function literals. -/
theorem Expr.marked (x : Expr) (htags : tag ∉ tags)
    (hx : tag = .expression →
      x.construct? ≠ some .call ∧ x.construct? ≠ some .functionLiteral) :
    (Part.expr place x).Marked tag (x.plan reading tags field) := by
  have hnil : tag ∉ ([] : List Tag) := List.not_mem_nil
  have hkeyword : tag ∉ [Tag.keyword] := Tag.notMem_of_all htag (by decide)
  have htype : tag ∉ [Tag.type] := Tag.notMem_of_all htag (by decide)
  have hoperator : tag ∉ [Tag.operator] := Tag.notMem_of_all htag (by decide)
  have hleft : tag ∉ [Tag.leftParenthesis] := Tag.notMem_of_all htag (by decide)
  have hright : tag ∉ [Tag.rightParenthesis] := Tag.notMem_of_all htag (by decide)
  have hsame : tag ∉ nested tags [] := notMem_nested htags hnil
  have hoperand : tag ∉ nested tags [.operand] :=
    notMem_nested htags (Tag.notMem_of_all htag (by decide))
  cases x with
  | ident i =>
    exact .leaf rfl rfl fun hmem => (List.mem_append.1 hmem).elim htags (i.notMem_tags htag)
  | basicLit lit =>
    exact .leaf rfl rfl fun hmem => (List.mem_append.1 hmem).elim htags (lit.notMem_tags htag)
  | ellipsis pos elt =>
    cases elt with
    | none => exact .leaf rfl rfl htags
    | some elt => exact .other rfl htags (.symbol hnil (.single (elt.plannedWithout htype)))
  | funcLit ty body =>
    refine .construct .functionLiteral rfl ?_ ?_ (.append (.keyword? hkeyword)
      (.cons (.inl rfl) (.single (body.plannedWithout ?_))))
    · simp [htags, Construct.tag]
    · simp [body.leaves_plan_ne_nil]
    · exact Tag.notMem_of_all htag (by decide)
  | compositeLit ty lbrace elts rbrace =>
    exact .other rfl htags (.append (Expr.tallies_plan? ty htype) (.symbol hnil
      (.head (.group hnil (Expr.tallies_plans elts 0 hsame)) (.symbol hnil .nil))))
  | paren lparen x rparen =>
    cases reading with
    | value =>
      refine .other rfl ?_ (.symbol hleft (.cons (x.plannedWithout hsame) (.symbol hright .nil)))
      exact fun hmem => (List.mem_append.1 hmem).elim htags (Tag.notMem_of_all htag (by decide))
    | type =>
      exact .other rfl htags (.symbol hnil (.cons (x.plannedWithout htype) (.symbol hnil .nil)))
  | selector x sel =>
    refine .construct .memberSelect rfl ?_ ?_
      (.cons (x.plannedWithout hnil) (.skip (sel.tagged_plan htag hnil) .nil))
    · simp [htags, Construct.tag]
    · simp [Ident.plan]
  | index x lbrack i rbrack =>
    refine .other rfl ?_ (.cons (x.plannedWithout ?_) (.symbol hnil
      (.cons (i.plannedWithout ?_) (.symbol hnil .nil))))
    · exact fun hmem => (List.mem_append.1 hmem).elim htags (Tag.notMem_of_all htag (by decide))
    · exact notMem_nested htags (Tag.notMem_of_all htag (by decide))
    · exact notMem_nested htags (Tag.notMem_of_all htag (by decide))
  | slice x lbrack low high max slice3 rbrack =>
    -- the bounds that are there, in the order of the text
    refine .other rfl htags ?_
    simp only [Part.children, parts, List.map_append, List.map_cons]
    exact .left (.append (.append (.cons (x.plannedWithout hsame) (.symbol hnil
      (Expr.tallies_plan? low hsame))) (Expr.tallies_plan? high hsame))
      (Expr.tallies_plan? max hsame)) (.symbol hnil .nil)
  | typeAssert x lparen ty rparen =>
    exact .other rfl htags (.left (.append (.cons (x.plannedWithout hsame) (.symbol hnil .nil))
      (Expr.tallies_plan? ty htype)) (.symbol hnil .nil))
  | call callee lparen args dots rparen =>
    -- the arguments are tagged as expressions, so this is not that tag
    have hcounted : tag.isCounted = true := by
      simpa [Tag.isTallied, show tag ≠ .expression from fun h => (hx h).1 rfl] using htag
    refine .construct .call rfl ?_ ?_ (.left (.left (.cons (callee.plannedWithout hnil)
      (.symbol hleft (.group ?_ (Expr.tallies_plans args 0 ?_)))) (.symbol? hnil))
      (.symbol hright .nil))
    · simp [htags, Construct.tag]
    · simp [Plan.symbol]
    · exact Tag.notMem_of_all htag (by decide)
    · exact Tag.notMem_of_all hcounted (by decide)
  | star pos x =>
    cases reading with
    | value =>
      refine .other rfl ?_ (.symbol hoperator (.single (x.plannedWithout hoperand)))
      exact fun hmem => (List.mem_append.1 hmem).elim htags (Tag.notMem_of_all htag (by decide))
    | type => exact .other rfl htags (.symbol hnil (.single (x.plannedWithout htype)))
  | unary opPos op x =>
    refine .other rfl ?_ (.symbol hoperator (.single (x.plannedWithout hoperand)))
    exact fun hmem => (List.mem_append.1 hmem).elim htags (op.notMem_tags htag)
  | binary x opPos op y =>
    refine .construct .binary rfl ?_ ?_ (.cons (x.plannedWithout ?_) (.symbol hoperator
      (.single (y.plannedWithout ?_))))
    · simp [htags, op.mem_tags_iff htag, Construct.tag]
    · simp [Plan.symbol]
    · exact notMem_nested htags (Tag.notMem_of_all htag (by decide))
    · exact notMem_nested htags (Tag.notMem_of_all htag (by decide))
  | keyValue key colon value =>
    exact .other rfl htags (.cons (key.plannedWithout hsame) (.symbol hnil
      (.single (value.plannedWithout hsame))))
  | arrayType lbrack len elt =>
    exact .other rfl htags (.append (.symbol hnil (Expr.tallies_plan? len hnil))
      (.single (elt.plannedWithout htype)))
  | structType pos fields =>
    exact .other rfl htags (.keyword hkeyword (.single (fields.plannedWithout hnil)))
  | funcType ty =>
    -- the signature is planned with its keyword, so its plan is the one of the type
    refine ⟨[_], .cons (.inr ⟨reading, tags, field, htags, rfl⟩) .nil, ?_⟩
    simp [Part.marks, Part.construct?, Expr.construct?]
  | interfaceType pos methods =>
    exact .other rfl htags (.keyword hkeyword (.single (methods.plannedWithout hnil)))
  | mapType pos key value =>
    exact .other rfl htags (.keyword hkeyword (.cons (key.plannedWithout htype)
      (.single (value.plannedWithout htype))))
  | chanType pos arrow dir value =>
    refine .other rfl htags (.right ?_ (.single (value.plannedWithout htype)))
    cases dir with
    | receive => exact .symbol hnil .nil
    | send => exact .keyword hkeyword (.symbol? hnil)
    | both => exact .keyword hkeyword .nil

/-! ### Fields and signatures -/

theorem FieldRole.notMem_tags (role : FieldRole) (named : Bool) : tag ∉ role.tags named :=
  Tag.notMem_of_all htag (by cases role <;> cases named <;> decide)

theorem FieldRole.notMem_nameTags (role : FieldRole) (named : Bool) : tag ∉ role.nameTags named :=
  Tag.notMem_of_all htag (by cases role <;> cases named <;> decide)

theorem Field.marked (f : Field) : (Part.field role f).Marked tag (f.plan role field) := by
  obtain ⟨names, ty, lit⟩ := f
  refine .other rfl (role.notMem_tags htag _) (.skip
    (Ident.tagged_listPlan htag names (role.notMem_nameTags htag _))
    (.cons (ty.plannedWithout (Tag.notMem_of_all htag (by decide))) ?_))
  cases lit with
  | none => exact .nil
  | some lit => exact .skip (lit.tagged_plan htag List.not_mem_nil) .nil

omit htag in
theorem Field.tallies_plans (list : List Field) (i : Nat) :
    Tallies tag (Field.plans role i list) (list.map (.field role)) := by
  induction list generalizing i with
  | nil => exact .nil
  | cons f list ih => exact .cons ⟨_, rfl⟩ (ih (i + 1))

omit htag in
theorem FieldList.marked (list : FieldList) (htags : tag ∉ tags) :
    (Part.fields role list).Marked tag (list.plan role tags field) := by
  obtain ⟨opening, list, closing⟩ := list
  exact .other rfl htags (.left (.right (.symbol? List.not_mem_nil) (Field.tallies_plans list 0))
    (.symbol? List.not_mem_nil))

/-- A signature is planned in a group of its own, or as a type with its keyword. -/
theorem FuncType.marked (ty : FuncType) {plan : Plan}
    (h : (Part.signature ty).PlannedWithout tag plan) : (Part.signature ty).Marked tag plan := by
  rcases h with rfl | ⟨reading, tags, field, htags, rfl⟩
  · exact .other rfl List.not_mem_nil (ty.tallies_parts htag)
  · exact .other rfl htags (.right (.keyword? (Tag.notMem_of_all htag (by decide)))
      (ty.tallies_parts htag))

/-- Whether a part is an expression or a part of a type, not a statement or a declaration. -/
def Part.inType : Part → Bool
  | .expr _ _ | .field _ _ | .fields _ _ | .signature _ => true
  | _ => false

/-- **The plan of an expression or a part of a type.** -/
theorem Part.PlannedWithout.marked_inType {part : Part} {plan : Plan} (hpart : part.inType = true)
    (hkind : tag = .expression →
      part.construct? ≠ some .call ∧ part.construct? ≠ some .functionLiteral)
    (h : part.PlannedWithout tag plan) : part.Marked tag plan := by
  cases part with
  | expr place x =>
    obtain ⟨reading, tags, field, htags, rfl⟩ := h
    exact x.marked htag htags hkind
  | field role f =>
    obtain ⟨field, rfl⟩ := h
    exact f.marked htag
  | fields role list =>
    obtain ⟨tags, field, htags, rfl⟩ := h
    exact list.marked htags
  | signature ty => exact ty.marked htag h
  | _ => cases hpart

end

/-! ### Statements and declarations -/

section

variable {tag : Tag} (htag : tag.isCounted = true) {reading : Reading} {kind : DeclKind}
  {tags : List Tag} {field : String}

theorem Stmt.tallies_plan? (s : Option Stmt) (htags : tag ∉ tags) :
    Tallies tag (Stmt.plan? tags field s) (s.toList.map .stmt) := by
  cases s with
  | none => exact .nil
  | some s => exact .single (s.plannedWithout htags)

theorem Stmt.tallies_plans (list : List Stmt) (i : Nat) :
    Tallies tag (Stmt.plans i list) (list.map .stmt) := by
  induction list generalizing i with
  | nil => exact .nil
  | cons s list ih => exact .cons (s.plannedWithout List.not_mem_nil) (ih (i + 1))

theorem Spec.tallies_plans (list : List Spec) (i : Nat) :
    Tallies tag (Spec.plans kind i list) (list.map (.spec kind)) := by
  induction list generalizing i with
  | nil => exact .nil
  | cons s list ih => exact .cons ⟨_, rfl⟩ (ih (i + 1))

theorem CaseClause.tallies_plans (list : List CaseClause) (i : Nat) :
    Tallies tag (CaseClause.plans reading i list) (list.map .caseClause) := by
  induction list generalizing i with
  | nil => exact .nil
  | cons clause list ih => exact .cons ⟨_, _, rfl⟩ (ih (i + 1))

theorem CommClause.tallies_plans (list : List CommClause) (i : Nat) :
    Tallies tag (CommClause.plans i list) (list.map .commClause) := by
  induction list generalizing i with
  | nil => exact .nil
  | cons clause list ih => exact .cons ⟨_, rfl⟩ (ih (i + 1))

theorem CaseBlock.tallies_parts (b : CaseBlock) :
    Tallies tag (b.parts reading) (b.clauses.map .caseClause) := by
  obtain ⟨lbrace, clauses, rbrace⟩ := b
  exact .left (.symbol List.not_mem_nil (CaseClause.tallies_plans clauses 0))
    (.symbol List.not_mem_nil .nil)

theorem Block.marked (b : Block) (htags : tag ∉ tags) :
    (Part.block b).Marked tag (b.plan tags field) := by
  obtain ⟨lbrace, list, rbrace⟩ := b
  exact .other rfl htags (.left (.symbol List.not_mem_nil (Stmt.tallies_plans list 0))
    (.symbol List.not_mem_nil .nil))

include htag

/-- A block after `else` is planned as a block. -/
theorem Stmt.tallies_elsePlan? (s : Option Stmt) :
    Tallies tag (Stmt.elsePlan? s) (s.toList.map .stmt) := by
  have hbranch : tag ∉ [Tag.elseBranch] := Tag.notMem_of_all htag (by decide)
  have hblock : tag ∉ [Tag.elseBranch, .block] := Tag.notMem_of_all htag (by decide)
  cases s with
  | none => exact .nil
  | some s =>
    cases s with
    | block b => exact .single (.inr ⟨b, _, _, hblock, rfl, rfl⟩)
    | _ => exact .single (Stmt.plannedWithout _ hbranch)

theorem Expr.notMem_statementTags (x : Expr) : tag ∉ x.statementTags := by
  unfold Expr.statementTags
  split
  · split <;> exact Tag.notMem_of_all htag (by decide)
  · exact List.not_mem_nil

/-- **The plan of a statement.** -/
theorem Stmt.marked (s : Stmt) (htags : tag ∉ tags) :
    (Part.stmt s).Marked tag (s.plan tags field) := by
  have hnil : tag ∉ ([] : List Tag) := List.not_mem_nil
  have hkeyword : tag ∉ [Tag.keyword] := Tag.notMem_of_all htag (by decide)
  have hexpr : tag ∉ [Tag.expression] := Tag.notMem_of_all htag (by decide)
  have hoperator : tag ∉ [Tag.operator] := Tag.notMem_of_all htag (by decide)
  have hassign : tag ∉ [Tag.assignmentOperator] := Tag.notMem_of_all htag (by decide)
  have hfor : tag ∉ [Tag.forKeyword] ++ [.keyword] := Tag.notMem_of_all htag (by decide)
  have hbody : tag ∉ [Tag.body, .block] := Tag.notMem_of_all htag (by decide)
  have htallied : tag.isTallied = true := Tag.isTallied_of_isCounted htag
  -- a tag that the construct adds is free unless it is the tag of the kind
  have hadded {added : List Tag} (h : (added.all fun other => !other.isCounted) = true) :
      tag ∉ tags ++ added :=
    fun hmem => (List.mem_append.1 hmem).elim htags (Tag.notMem_of_all htag h)
  have hown (kind : Construct) {added : List Tag}
      (h : (added.all fun other => !other.isCounted) = true) :
      tag ∈ tags ++ kind.tag :: added ↔ tag = kind.tag := by
    simp [htags, Tag.notMem_of_all htag h]
  cases s with
  | empty e =>
    unfold Stmt.plan
    split
    · exact ⟨[], .nil, by simp [Plan.tagged, Part.marks, Part.construct?, Stmt.construct?]⟩
    · exact .leaf rfl rfl (hadded (by decide))
  | block b =>
    refine ⟨[b.plan (tags ++ [.block, .statement]) field],
      .cons (b.plannedWithout (hadded (by decide))) .nil, ?_⟩
    simp [Part.marks, Part.construct?, Stmt.construct?, Stmt.plan]
  | labeled label colon s =>
    refine .construct .label rfl (hown .label (by decide)) ?_
      (.skip (label.tagged_plan htallied hnil) (.symbol hnil (.single (s.plannedWithout hnil))))
    simp [Ident.plan]
  | decl d => exact .other rfl (hadded (by decide)) (.single ⟨_, rfl⟩)
  | expr x =>
    refine .other rfl ?_ (.single (x.plannedWithout hexpr))
    exact fun hmem => (List.mem_append.1 hmem).elim (hadded (by decide))
      (x.notMem_statementTags htag)
  | send chan arrow value =>
    exact .other rfl (hadded (by decide)) (.cons (chan.plannedWithout hexpr)
      (.symbol hnil (.single (value.plannedWithout hexpr))))
  | step x tokPos op =>
    refine .other rfl ?_ (.cons (x.plannedWithout ?_) (.symbol hoperator .nil))
    · rw [List.append_assoc]
      exact hadded (by cases op <;> decide)
    · exact Tag.notMem_of_all htag (by decide)
  | assign lhs tok rhs =>
    refine .construct .assignment rfl ?_ ?_ ?_
    · have hstatement : tag ≠ .statement := by
        simpa using (Tag.notMem_of_all htag (by decide) : tag ∉ [Tag.statement])
      simp [htags, tok.op.mem_tags_iff htallied, hstatement, Construct.tag]
    · simp [Plan.symbol]
    · rw [Part.children, parts, List.map_append]
      refine .append (.group ?_ (Expr.tallies_plans lhs 0 ?_)) (.symbol hassign
        (.group ?_ (Expr.tallies_plans rhs 0 ?_))) <;> exact Tag.notMem_of_all htag (by decide)
  | goCall pos call | deferCall pos call =>
    exact .other rfl (hadded (by decide)) (.keyword hkeyword (.single (call.plannedWithout hexpr)))
  | returns pos results =>
    refine .construct .returns rfl (hown .returns (by decide)) ?_
      (.keyword hkeyword (Expr.tallies_plans results 0 hexpr))
    simp [Plan.keyword]
  | branch tokPos kind label =>
    refine .other rfl (hadded (by cases kind <;> decide)) (.keyword hkeyword ?_)
    cases label with
    | none => exact .nil
    | some label =>
      exact .skip (label.tagged_plan htallied (Tag.notMem_of_all htag (by decide))) .nil
  | ifThen pos init cond body orElse =>
    refine .construct .ifThen rfl (hown .ifThen (by decide)) ?_ ?_
    · simp [Plan.keyword]
    rw [Part.children, parts,
      show [Part.expr .plain cond, .block body] = [.expr .plain cond] ++ [.block body] from rfl,
      ← List.append_assoc]
    refine .append (.keyword ?_ (.append (.group ?_ (.append (Stmt.tallies_plan? init hnil)
      (.single (cond.plannedWithout hexpr)))) (.single (body.plannedWithout ?_))))
      (Stmt.tallies_elsePlan? htag orElse) <;> exact Tag.notMem_of_all htag (by decide)
  | switch pos init tag body =>
    refine .construct .switch rfl (hown .switch (by decide)) ?_
      (.append (.append (.keyword hkeyword (Stmt.tallies_plan? init hnil))
        (Expr.tallies_plan? tag hexpr)) (CaseBlock.tallies_parts body))
    simp [Plan.keyword]
  | typeSwitch pos init guard body =>
    refine .construct .switch rfl (hown .switch (by decide)) ?_
      (.append (.append (.keyword hkeyword (Stmt.tallies_plan? init hnil))
        (.single (guard.plannedWithout hnil))) (CaseBlock.tallies_parts body))
    simp [Plan.keyword]
  | select pos lbrace clauses rbrace =>
    exact .other rfl (hadded (by decide)) (.left (.keyword hkeyword
      (.symbol hnil (CommClause.tallies_plans clauses 0))) (.symbol hnil .nil))
  | forLoop pos init cond post body =>
    refine .construct .loop rfl (hown .loop (by decide)) ?_
      (.append (.append (.append (.keyword hfor (Stmt.tallies_plan? init ?_))
        (Expr.tallies_plan? cond ?_)) (Stmt.tallies_plan? post ?_))
        (.single (body.plannedWithout hbody)))
    · simp [Plan.keyword]
    all_goals exact Tag.notMem_of_all htag (by decide)
  | rangeLoop pos key value tok x body =>
    refine .construct .loop rfl (hown .loop (by decide)) ?_ ?_
    · simp [Plan.keyword]
    -- the assignment stands between the variables and what is ranged over
    have hparts : (Part.stmt (.rangeLoop pos key value tok x body)).children =
        key.toList.map (.expr .plain) ++ value.toList.map (.expr .plain) ++
          [.expr .plain x, .block body] := by
      simp [Part.children, parts]
    rw [hparts]
    refine .append (.left (.append (.keyword hfor (Expr.tallies_plan? key hnil))
      (Expr.tallies_plan? value hnil)) ?_)
      (.cons (x.plannedWithout hexpr) (.single (body.plannedWithout hbody)))
    cases tok with
    | none => exact .nil
    | some tok => exact .symbol hassign .nil

theorem CaseClause.marked (clause : CaseClause) :
    (Part.caseClause clause).Marked tag (clause.plan reading field) := by
  obtain ⟨pos, list, colon, body⟩ := clause
  refine .construct .caseClause rfl ?_ ?_ (.append (.keyword ?_ (Expr.tallies_plans list 0 ?_))
    (.symbol List.not_mem_nil (Stmt.tallies_plans body 0)))
  · have hdefault : tag ≠ .defaultCase := by
      simpa using (Tag.notMem_of_all htag (by decide) : tag ∉ [Tag.defaultCase])
    split <;> simp [hdefault, Construct.tag]
  · simp [Plan.keyword]
  · exact Tag.notMem_of_all htag (by decide)
  · cases reading <;> exact Tag.notMem_of_all htag (by decide)

theorem CommClause.marked (clause : CommClause) :
    (Part.commClause clause).Marked tag (clause.plan field) := by
  obtain ⟨pos, comm, colon, body⟩ := clause
  exact .other rfl List.not_mem_nil (.append (.keyword (Tag.notMem_of_all htag (by decide))
    (Stmt.tallies_plan? comm List.not_mem_nil))
    (.symbol List.not_mem_nil (Stmt.tallies_plans body 0)))

theorem GenDecl.marked (d : GenDecl) : (Part.genDecl d).Marked tag (d.plan field) := by
  obtain ⟨tokPos, kind, lparen, specs, rparen⟩ := d
  have htags : tag ∉ kind.tags := Tag.notMem_of_all htag (by cases kind <;> decide)
  exact .other rfl htags (.left (.right (.keyword (Tag.notMem_of_all htag (by decide))
    (.symbol? List.not_mem_nil)) (.group List.not_mem_nil (Spec.tallies_plans specs 0)))
    (.symbol? List.not_mem_nil))

theorem Spec.marked (s : Spec) : (Part.spec kind s).Marked tag (s.plan kind field) := by
  have htallied : tag.isTallied = true := Tag.isTallied_of_isCounted htag
  have hnil : tag ∉ ([] : List Tag) := List.not_mem_nil
  cases s with
  | imported name path =>
    have hpath : Tallies tag [path.plan [] "Path"] [] := .skip (path.tagged_plan htallied hnil) .nil
    refine .other rfl (Tag.notMem_of_all htag (by decide)) (.right ?_ hpath)
    cases name with
    | none => exact .nil
    | some name => exact .skip (name.tagged_plan htallied hnil) .nil
  | value names ty values =>
    have hvalue : tag ∉ kind.valueTags := Tag.notMem_of_all htag (by cases kind <;> decide)
    have hnames : tag ∉ kind.nameTags := Tag.notMem_of_all htag (by cases kind <;> decide)
    refine .other rfl hvalue ?_
    rw [Part.children, parts, List.map_append]
    refine .append (.skip (Ident.tagged_listPlan htallied names hnames)
      (Expr.tallies_plan? ty ?_)) (.group hnil (Expr.tallies_plans values 0 ?_)) <;>
      exact Tag.notMem_of_all htag (by decide)
  | type name assign ty =>
    -- the tags of a type specification are told by the type
    have htags : tag ∉ ty.specTags := by
      unfold Expr.specTags
      split
      · split <;> exact Tag.notMem_of_all htag (by decide)
      · split <;> exact Tag.notMem_of_all htag (by decide)
      · exact hnil
    exact .other rfl htags (.right (.skip (name.tagged_plan htallied hnil) (.symbol? hnil))
      (.single (ty.plannedWithout (Tag.notMem_of_all htag (by decide)))))

theorem FuncDecl.marked (d : FuncDecl) : (Part.funcDecl d).Marked tag (d.plan field) := by
  obtain ⟨func, recv, name, ty, body⟩ := d
  have hname : (name.plan [.functionName] "Name").tagged tag = 0 :=
    name.tagged_plan (Tag.isTallied_of_isCounted htag) (Tag.notMem_of_all htag (by decide))
  refine .construct .function rfl (by simp [Construct.tag]) (by simp [Plan.keyword])
    (.append (.append (.keyword (Tag.notMem_of_all htag (by decide)) ?_)
      (.skip hname (.single (.inl rfl)))) ?_)
  · cases recv with
    | none => exact .nil
    | some recv => exact .single (recv.plannedWithout (Tag.notMem_of_all htag (by decide)))
  · cases body with
    | none => exact .nil
    | some body => exact .single (body.plannedWithout (Tag.notMem_of_all htag (by decide)))

/-- **The plan of a part** has the tagged nodes of its parts, and one more if the part is of the
kind that is tagged. -/
theorem Part.PlannedWithout.marked {part : Part} {plan : Plan}
    (h : part.PlannedWithout tag plan) : part.Marked tag plan := by
  cases part with
  | expr | field | fields | signature =>
    refine h.marked_inType (Tag.isTallied_of_isCounted htag) rfl ?_
    rintro rfl
    exact absurd htag (by decide)
  | block b =>
    obtain ⟨tags, field, htags, rfl⟩ := h
    exact b.marked htags
  | stmt s =>
    -- a block after `else` is planned as a block, not as a statement
    rcases h with ⟨tags, field, htags, rfl⟩ | ⟨b, tags, field, htags, rfl, rfl⟩
    · exact s.marked htag htags
    · refine ⟨[b.plan tags field], .cons (b.plannedWithout htags) .nil, ?_⟩
      simp [marks, construct?, Stmt.construct?]
  | caseClause clause =>
    obtain ⟨reading, field, rfl⟩ := h
    exact clause.marked htag
  | commClause clause =>
    obtain ⟨field, rfl⟩ := h
    exact clause.marked htag
  | genDecl d =>
    obtain ⟨field, rfl⟩ := h
    exact d.marked htag
  | spec kind s =>
    obtain ⟨field, rfl⟩ := h
    exact s.marked htag
  | funcDecl d =>
    obtain ⟨field, rfl⟩ := h
    exact d.marked htag

end

/-! ### Counting over all parts -/

section

variable {tag : Tag}

/-- The tagged nodes of several plans are counted part by part. -/
theorem taggedAll_of_forall₂ {parts : List Part} {subs : List Plan}
    (h : List.Forall₂ (Part.PlannedWithout tag) parts subs)
    (hcount : ∀ part ∈ parts, ∀ plan, part.PlannedWithout tag plan →
      plan.tagged tag = part.all.countP (Part.marks tag)) :
    taggedAll tag subs = (parts.flatMap Part.all).countP (Part.marks tag) := by
  induction h with
  | nil => rfl
  | cons head _ ih =>
    rw [List.forall_mem_cons] at hcount
    rw [taggedAll_cons, List.flatMap_cons, List.countP_append, hcount.1 _ head, ih hcount.2]

/-- **The tagged nodes of the plan of a part** are as many as the parts inside it of the kind that
is tagged, if plans have the tagged nodes of their parts all the way down. -/
theorem Part.PlannedWithout.tagged_of_marked {P : Part → Prop}
    (hchildren : ∀ part, P part → ∀ child ∈ part.children, P child)
    (hmarked : ∀ part plan, P part → part.PlannedWithout tag plan → part.Marked tag plan)
    {part : Part} {plan : Plan} (hpart : P part) (h : part.PlannedWithout tag plan) :
    plan.tagged tag = part.all.countP (marks tag) := by
  induction part using Part.induct generalizing plan with
  | h part ih =>
    obtain ⟨subs, hsubs, hcount⟩ := hmarked part plan hpart h
    have hparts := taggedAll_of_forall₂ hsubs fun child hchild sub hsub =>
      ih child hchild (hchildren part hpart child hchild) hsub
    rw [hcount, hparts, all_eq, List.countP_cons, Nat.add_comm]

/-- Any part, for the tag of a kind. -/
theorem Part.PlannedWithout.tagged_eq (htag : tag.isCounted = true) {part : Part} {plan : Plan}
    (h : part.PlannedWithout tag plan) : plan.tagged tag = part.all.countP (marks tag) :=
  tagged_of_marked (P := fun _ => True) (fun _ _ _ _ => trivial) (fun _ _ _ h => h.marked htag)
    trivial h

/-! ### Expressions in types and operands -/

/-- **No call and no function literal is inside a part.** -/
def Part.CallFree (part : Part) : Prop :=
  ∀ other, part.Inside other →
    other.construct? ≠ some .call ∧ other.construct? ≠ some .functionLiteral

theorem Part.CallFree.of_mem {part child : Part} (h : part.CallFree)
    (hchild : child ∈ part.children) : child.CallFree :=
  fun other hother => h other (hother.of_child hchild)

/-- Only a function literal has other parts. -/
theorem Expr.inType_parts (x : Expr) (hx : x.construct? ≠ some .functionLiteral) :
    ∀ child ∈ x.parts, child.inType = true := by
  cases x with
  | funcLit => exact absurd rfl hx
  | _ =>
    simp only [parts, List.forall_mem_append, List.forall_mem_cons, List.forall_mem_map,
      List.not_mem_nil, Part.inType, false_imp_iff, implies_true, and_self]

theorem Part.inType_children {part : Part} (hpart : part.inType = true)
    (hkind : part.construct? ≠ some .functionLiteral) :
    ∀ child ∈ part.children, child.inType = true := by
  cases part with
  | expr place x => exact x.inType_parts hkind
  | field => simp [children, inType]
  | fields => simp [children, inType]
  | signature => simp [children, inType]
  | _ => simp [inType] at hpart

/-- Expressions are of no kind with the tag of expressions. -/
theorem Part.marks_expression (part : Part) : part.marks .expression = false := by
  rw [marks, decide_eq_false_iff_not]
  cases part.construct? with
  | none => simp
  | some kind => cases kind <;> decide

/-- **Without calls and function literals no node of an expression is tagged as one**, unless its
place says that it is one. -/
theorem Part.PlannedWithout.tagged_expression {part : Part} {plan : Plan}
    (hpart : part.inType = true) (hfree : part.CallFree)
    (h : part.PlannedWithout .expression plan) : plan.tagged .expression = 0 := by
  have htallied : Tag.isTallied .expression = true := by decide
  have hcount : plan.tagged .expression = part.all.countP (marks .expression) := by
    refine tagged_of_marked (P := fun part => part.inType = true ∧ part.CallFree) ?_ ?_
      ⟨hpart, hfree⟩ h
    · exact fun part ⟨hpart, hfree⟩ child hchild =>
        ⟨inType_children hpart (hfree part .self).2 child hchild, hfree.of_mem hchild⟩
    · exact fun part plan ⟨hpart, hfree⟩ h =>
        h.marked_inType htallied hpart fun _ => hfree part .self
  rw [hcount, List.countP_eq_zero]
  simp [marks_expression]

end

end GoTree
