import GoTree.Mapping.Plan.Construct
import GoTree.Proofs.Mapping.Realize

/-!
# Tags of planned tokens

Comments and the end of the file are tagged as such, and no construct of the syntax tree gives these
tags to a token of its plan.  This holds for any syntax tree, whether or not it was read from a text.

## Main definitions

* `Tag.Plain`: tags of which none marks a comment or the end of the file
* `Plan.Plain`: plans all of whose tokens have such tags

## Main results

* `Expr.plain_plan`, `Stmt.plain_plan`, `Decl.plain_plan`: the plans of constructs are plain
-/

namespace GoTree

/-- Tags of which none marks a comment or the end of the file. -/
def Tag.Plain (tags : List Tag) : Prop :=
  .comment ∉ tags ∧ .endOfFile ∉ tags

instance (tags : List Tag) : Decidable (Tag.Plain tags) :=
  inferInstanceAs (Decidable (_ ∧ _))

namespace Tag

@[simp]
theorem plain_nil : Plain [] := by decide

@[simp]
theorem plain_cons {tag : Tag} {tags : List Tag} :
    Plain (tag :: tags) ↔ (tag ≠ .comment ∧ tag ≠ .endOfFile) ∧ Plain tags := by
  simp only [Plain, List.mem_cons, not_or, eq_comm, ne_eq]
  grind

@[simp]
theorem plain_append {tags more : List Tag} : Plain (tags ++ more) ↔ Plain tags ∧ Plain more := by
  simp only [Plain, List.mem_append, not_or]
  grind

end Tag

namespace Mapping

variable {m : Mapping}

/-- A leaf made with plain tags has bytes and keeps its tags. -/
theorem leafAt_of_plain {tags : List Tag} {start stop : Nat} {label : String} {leaf : Node}
    (h : m.leafAt tags start stop label = .ok (some leaf)) (hplain : Tag.Plain tags) :
    leaf.start < leaf.stop ∧ Tag.Plain leaf.tags := by
  refine ⟨start_lt_stop_of_leafAt h ?_, ?_⟩
  · rintro rfl
    simp at hplain
  · obtain ⟨value, p, -, -, -, rfl⟩ := leafAt_eq_ok_some h
    exact hplain

/-- The tokens of gaps have plain tags. -/
theorem IsPiece.plain {leaf : Node} (h : m.IsPiece leaf) : Tag.Plain leaf.tags := by
  obtain ⟨piece, hpiece, -⟩ := h
  obtain ⟨tags, start, stop, hleaf, htags⟩ := leafAt_of_pieceLeaf hpiece
  refine (leafAt_of_plain hleaf ?_).2
  rcases htags with rfl | rfl
  · exact Tag.plain_nil
  · decide

/-- Tokens planned with plain tags have bytes and keep their tags. -/
theorem plain_of_expectLeaf {planned : Plan.Leaf} {leaf : Node} (hplain : Tag.Plain planned.tags)
    (h : m.expectLeaf planned = .ok (some leaf)) :
    leaf.start < leaf.stop ∧ Tag.Plain leaf.tags :=
  leafAt_of_plain (expect_eq_ok_some h).1 hplain

end Mapping

/-! ### Tags of operators, literals and names -/

@[simp]
theorem BinaryOp.plain_tags (op : BinaryOp) : Tag.Plain op.tags := by
  cases op <;> decide

@[simp]
theorem UnaryOp.plain_tags (op : UnaryOp) : Tag.Plain op.tags := by
  cases op <;> decide

@[simp]
theorem AssignOp.plain_tags (op : AssignOp) : Tag.Plain op.tags := by
  cases op <;> decide

@[simp]
theorem StepOp.plain_tags (op : StepOp) : Tag.Plain op.tags := by
  cases op <;> decide

@[simp]
theorem BasicLit.plain_tags (lit : BasicLit) : Tag.Plain lit.tags := by
  have hbase : integerBase lit.value ≠ .comment ∧ integerBase lit.value ≠ .endOfFile := by
    unfold integerBase
    split
    · split
      · decide
      · split <;> decide
    · decide
  unfold tags
  split <;> simp [hbase]

@[simp]
theorem Ident.plain_tags (ident : Ident) : Tag.Plain ident.tags := by
  unfold tags
  split
  · decide
  · split <;> decide

@[simp]
theorem DeclKind.plain_nameTags (kind : DeclKind) : Tag.Plain kind.nameTags := by
  cases kind <;> decide

@[simp]
theorem FieldRole.plain_nameTags (role : FieldRole) (named : Bool) :
    Tag.Plain (role.nameTags named) := by
  cases role <;> cases named <;> decide

/-- A part is an expression or not; it is plain when its role is. -/
@[simp]
theorem Plan.plain_nested (whole role : List Tag) :
    Tag.Plain (Plan.nested whole role) ↔ Tag.Plain role := by
  unfold Plan.nested
  split <;> simp

namespace Plan

/-! ### Plans -/

/-- Plans all of whose tokens have plain tags. -/
def Plain (plan : Plan) : Prop :=
  ∀ leaf ∈ plan.leaves, Tag.Plain leaf.tags

/-- Several plain plans. -/
def PlainAll (plans : List Plan) : Prop :=
  ∀ leaf ∈ leavesAll plans, Tag.Plain leaf.tags

@[simp]
theorem plain_nothing : Plain .nothing := by simp [Plain]

@[simp]
theorem plain_token {tags : List Tag} {pos : Offset} {text label : String} :
    Plain (.token tags pos text label) ↔ Tag.Plain tags := by simp [Plain]

@[simp]
theorem plain_group {tags : List Tag} {label : String} {parts : List Plan} :
    Plain (.group tags label parts) ↔ PlainAll parts := Iff.rfl

@[simp]
theorem plain_keyword {tags : List Tag} {pos : Offset} {word : Keyword} {label : String} :
    Plain (keyword tags pos word label) ↔ Tag.Plain tags := by simp [keyword]

@[simp]
theorem plain_symbol {tags : List Tag} {pos : Offset} {s : Symbol} {label : String} :
    Plain (symbol tags pos s label) ↔ Tag.Plain tags := by simp [symbol]

@[simp]
theorem plainAll_nil : PlainAll [] := by simp [PlainAll]

@[simp]
theorem plainAll_cons {plan : Plan} {rest : List Plan} :
    PlainAll (plan :: rest) ↔ plan.Plain ∧ PlainAll rest := by
  simp only [PlainAll, leavesAll_cons, List.forall_mem_append, Plain]

@[simp]
theorem plainAll_append {plans rest : List Plan} :
    PlainAll (plans ++ rest) ↔ PlainAll plans ∧ PlainAll rest := by
  simp only [PlainAll, leavesAll_append, List.forall_mem_append]

@[simp]
theorem plainAll_symbol? {pos : Option Offset} {s : Symbol} {label : String} :
    PlainAll (symbol? [] pos s label) := by
  cases pos <;> simp [symbol?]

@[simp]
theorem plainAll_keyword? {pos : Option Offset} {word : Keyword} {label : String} :
    PlainAll (keyword? [] pos word label) := by
  cases pos <;> simp [keyword?]

theorem plainAll_elementsFrom {α : Type} {plan : α → String → Plan}
    (h : ∀ a field, (plan a field).Plain) (i : Nat) (list : List α) :
    PlainAll (elementsFrom plan i list) := by
  induction list generalizing i with
  | nil => simp [elementsFrom]
  | cons a list ih => simp [elementsFrom, h, ih]

/-- A plan that may be absent is plain when it is. -/
theorem plainAll_toList {α : Type} {plan : α → Plan} (h : ∀ a, (plan a).Plain) (o : Option α) :
    PlainAll (o.map plan).toList := by
  cases o <;> simp [h]

end Plan

open Plan

/-! ### Constructs -/

@[simp]
theorem Ident.plain_plan (ident : Ident) {tags : List Tag} (h : Tag.Plain tags) (field : String) :
    (ident.plan tags field).Plain := by
  simp [plan, h]

@[simp]
theorem BasicLit.plain_plan (lit : BasicLit) {tags : List Tag} (h : Tag.Plain tags)
    (field : String) : (lit.plan tags field).Plain := by
  simp [plan, h]

@[simp]
theorem Ident.plain_listPlan (names : List Ident) {tags : List Tag} (h : Tag.Plain tags) :
    (Ident.listPlan names tags).Plain := by
  simp only [listPlan, plain_group]
  exact plainAll_elementsFrom (fun name field => name.plain_plan h field) 0 names

mutual

/-- **No token of an expression** is tagged as a comment or as the end of the file. -/
theorem Expr.plain_plan (reading : Reading) (tags : List Tag) (h : Tag.Plain tags)
    (field : String) : (e : Expr) → (e.plan reading tags field).Plain
  | .ident i => i.plain_plan h field
  | .basicLit lit => lit.plain_plan h field
  | .ellipsis pos none => by simpa [Expr.plan] using h
  | .ellipsis pos (some elt) => by
    simp [Expr.plan, Expr.plain_plan .type [.type] (by decide) _ elt]
  | .funcLit ty body => by
    simp [Expr.plan, FuncType.plain_parts ty, Block.plain_plan [.block] _ body]
  | .compositeLit ty lbrace elts rbrace => by
    simp [Expr.plan, Expr.plain_plan? .type [.type] (by decide) _ ty,
      Expr.plain_plans .value (nested tags []) (by simp) 0 elts]
  | .paren lparen x rparen => by
    cases reading with
    | value => simp [Expr.plan, Expr.plain_plan .value (nested tags []) (by simp) _ x]
    | type => simp [Expr.plan, Expr.plain_plan .type [.type] (by decide) _ x]
  | .selector x sel => by
    simp [Expr.plan, Expr.plain_plan .value [] Tag.plain_nil _ x]
  | .index x lbrack i rbrack => by
    simp [Expr.plan,
      Expr.plain_plan .value (nested tags [.arrayObjectExpression]) (by simp) _ x,
      Expr.plain_plan .value (nested tags [.arrayKeyExpression]) (by simp) _ i]
  | .slice x lbrack low high max _ rbrack => by
    have hpart : Tag.Plain (nested tags []) := by simp
    simp [Expr.plan, Expr.plain_plan .value _ hpart _ x, Expr.plain_plan? .value _ hpart _ low,
      Expr.plain_plan? .value _ hpart _ high, Expr.plain_plan? .value _ hpart _ max]
  | .typeAssert x lparen ty rparen => by
    simp [Expr.plan, Expr.plain_plan .value (nested tags []) (by simp) _ x,
      Expr.plain_plan? .type [.type] (by decide) _ ty]
  | .call callee lparen args dots rparen => by
    simp [Expr.plan, Expr.plain_plan .value [] Tag.plain_nil _ callee,
      Expr.plain_plans .value [.argument, .expression] (by decide) 0 args]
  | .star pos x => by
    cases reading with
    | value => simp [Expr.plan, Expr.plain_plan .value (nested tags [.operand]) (by simp) _ x]
    | type => simp [Expr.plan, Expr.plain_plan .type [.type] (by decide) _ x]
  | .unary opPos op x => by
    simp [Expr.plan, Expr.plain_plan .value (nested tags [.operand]) (by simp) _ x]
  | .binary x opPos op y => by
    simp [Expr.plan, Expr.plain_plan .value (nested tags [.leftOperand]) (by simp) _ x,
      Expr.plain_plan .value (nested tags [.rightOperand]) (by simp) _ y]
  | .keyValue key colon value => by
    have hpart : Tag.Plain (nested tags []) := by simp
    simp [Expr.plan, Expr.plain_plan .value _ hpart _ key, Expr.plain_plan .value _ hpart _ value]
  | .arrayType lbrack len elt => by
    simp [Expr.plan, Expr.plain_plan? .value [] Tag.plain_nil _ len,
      Expr.plain_plan .type [.type] (by decide) _ elt]
  | .structType pos fields => by
    simp [Expr.plan, FieldList.plain_plan .struct [] _ fields]
  | .funcType ty => by
    simp [Expr.plan, FuncType.plain_parts ty]
  | .interfaceType pos methods => by
    simp [Expr.plan, FieldList.plain_plan .interface [] _ methods]
  | .mapType pos key value => by
    have htype : Tag.Plain [.type] := by decide
    simp [Expr.plan, Expr.plain_plan .type _ htype _ key, Expr.plain_plan .type _ htype _ value]
  | .chanType pos arrow dir value => by
    cases dir <;>
      simp [Expr.plan, Expr.plain_plan .type [.type] (by decide) _ value]

theorem Expr.plain_plan? (reading : Reading) (tags : List Tag) (h : Tag.Plain tags)
    (field : String) : (e : Option Expr) → PlainAll (Expr.plan? reading tags field e)
  | none => by simp [Expr.plan?]
  | some e => by simp [Expr.plan?, Expr.plain_plan reading tags h field e]

theorem Expr.plain_plans (reading : Reading) (tags : List Tag) (h : Tag.Plain tags) (i : Nat) :
    (list : List Expr) → PlainAll (Expr.plans reading tags i list)
  | [] => by simp [Expr.plans]
  | e :: rest => by
    simp [Expr.plans, Expr.plain_plan reading tags h _ e, Expr.plain_plans reading tags h (i + 1) rest]

theorem FuncType.plain_parts : (ty : FuncType) → PlainAll ty.parts
  | ⟨_, params, results⟩ => by
    simp [FuncType.parts, FieldList.plain_plan .params [.parameterList] _ params,
      FieldList.plain_resultPlan? results]

theorem FieldList.plain_resultPlan? :
    (results : Option FieldList) → PlainAll (FieldList.resultPlan? results)
  | none => by simp [FieldList.resultPlan?]
  | some results => by
    simp [FieldList.resultPlan?, FieldList.plain_plan .results [.resultList] _ results]

theorem FieldList.plain_plan (role : FieldRole) (tags : List Tag) (field : String) :
    (list : FieldList) → (list.plan role tags field).Plain
  | ⟨opening, list, closing⟩ => by simp [FieldList.plan, Field.plain_plans role 0 list]

theorem Field.plain_plans (role : FieldRole) (i : Nat) :
    (list : List Field) → PlainAll (Field.plans role i list)
  | [] => by simp [Field.plans]
  | f :: rest => by
    simp [Field.plans, Field.plain_plan role _ f, Field.plain_plans role (i + 1) rest]

theorem Field.plain_plan (role : FieldRole) (field : String) :
    (f : Field) → (f.plan role field).Plain
  | ⟨names, ty, tag⟩ => by
    have htag := plainAll_toList (fun lit : BasicLit => lit.plain_plan Tag.plain_nil "Tag") tag
    simp [Field.plan, Expr.plain_plan .type [.type] (by decide) _ ty, htag]

theorem Block.plain_plan (tags : List Tag) (field : String) :
    (b : Block) → (b.plan tags field).Plain
  | ⟨lbrace, list, rbrace⟩ => by simp [Block.plan, Stmt.plain_plans 0 list]

/-- **No token of a statement** is tagged as a comment or as the end of the file. -/
theorem Stmt.plain_plan (tags : List Tag) (h : Tag.Plain tags) (field : String) :
    (s : Stmt) → (s.plan tags field).Plain
  | .empty e => by
    unfold Stmt.plan
    split <;> simp [h]
  | .block b => Block.plain_plan _ field b
  | .labeled label colon stmt => by simp [Stmt.plan, Stmt.plain_plan [] Tag.plain_nil _ stmt]
  | .decl d => by simp [Stmt.plan, GenDecl.plain_plan _ d]
  | .expr x => by simp [Stmt.plan, Expr.plain_plan .value [.expression] (by decide) _ x]
  | .send chan arrow value => by
    have hexpr : Tag.Plain [.expression] := by decide
    simp [Stmt.plan, Expr.plain_plan .value _ hexpr _ chan, Expr.plain_plan .value _ hexpr _ value]
  | .step x tokPos op => by
    simp [Stmt.plan, Expr.plain_plan .value [.operand] (by decide) _ x]
  | .assign lhs tok rhs => by
    simp [Stmt.plan, Expr.plain_plans .value [.assignmentTarget] (by decide) 0 lhs,
      Expr.plain_plans .value [.assignmentValue, .expression] (by decide) 0 rhs]
  | .goCall pos call => by
    simp [Stmt.plan, Expr.plain_plan .value [.expression] (by decide) _ call]
  | .deferCall pos call => by
    simp [Stmt.plan, Expr.plain_plan .value [.expression] (by decide) _ call]
  | .returns pos results => by
    simp [Stmt.plan, Expr.plain_plans .value [.expression] (by decide) 0 results]
  | .branch tokPos kind label => by
    have hlabel := plainAll_toList
      (fun name : Ident => name.plain_plan (show Tag.Plain [.branchLabel] by decide) "Label") label
    simp [Stmt.plan, hlabel]
  | .ifThen pos init cond body orElse => by
    simp [Stmt.plan, Stmt.plain_plan? [] Tag.plain_nil _ init,
      Block.plain_plan [.thenBranch, .block] _ body,
      Expr.plain_plan .value [.expression] (by decide) _ cond,
      Stmt.plain_elsePlan? orElse]
  | .switch pos init tag body => by
    simp [Stmt.plan, Stmt.plain_plan? [] Tag.plain_nil _ init,
      Expr.plain_plan? .value [.expression] (by decide) _ tag,
      CaseBlock.plain_parts .value body]
  | .typeSwitch pos init guard body => by
    simp [Stmt.plan, Stmt.plain_plan? [] Tag.plain_nil _ init, Stmt.plain_plan [] Tag.plain_nil _ guard,
      CaseBlock.plain_parts .type body]
  | .select pos lbrace clauses rbrace => by
    simp [Stmt.plan, CommClause.plain_plans 0 clauses]
  | .forLoop pos init cond post body => by
    simp [Stmt.plan, Stmt.plain_plan? [.forInit] (by decide) _ init,
      Expr.plain_plan? .value [.condition, .expression] (by decide) _ cond,
      Stmt.plain_plan? [.forUpdate] (by decide) _ post,
      Block.plain_plan [.body, .block] _ body]
  | .rangeLoop pos key value tok x body => by
    have hsymbol (t : AssignTok) :
        (Plan.symbol [.assignmentOperator] t.pos t.op.symbol "Tok").Plain := by simp
    have htok := plainAll_toList hsymbol tok
    simp [Stmt.plan, Expr.plain_plan? .value [] Tag.plain_nil _ key,
      Expr.plain_plan? .value [] Tag.plain_nil _ value, htok,
      Expr.plain_plan .value [.expression] (by decide) _ x,
      Block.plain_plan [.body, .block] _ body]

theorem Stmt.plain_plan? (tags : List Tag) (h : Tag.Plain tags) (field : String) :
    (s : Option Stmt) → PlainAll (Stmt.plan? tags field s)
  | none => by simp [Stmt.plan?]
  | some s => by simp [Stmt.plan?, Stmt.plain_plan tags h field s]

theorem Stmt.plain_elsePlan? : (s : Option Stmt) → PlainAll (Stmt.elsePlan? s)
  | none => by simp [Stmt.elsePlan?]
  | some s => by
    have hplan := Stmt.plain_plan [.elseBranch] (by decide) "Else" s
    cases s with
    | block b => simp [Stmt.elsePlan?, Block.plain_plan [.elseBranch, .block] _ b]
    | _ => simpa [Stmt.elsePlan?] using hplan

theorem Stmt.plain_plans (i : Nat) : (list : List Stmt) → PlainAll (Stmt.plans i list)
  | [] => by simp [Stmt.plans]
  | s :: rest => by
    simp [Stmt.plans, Stmt.plain_plan [] Tag.plain_nil _ s, Stmt.plain_plans (i + 1) rest]

theorem CaseBlock.plain_parts (reading : Reading) :
    (b : CaseBlock) → PlainAll (b.parts reading)
  | ⟨lbrace, clauses, rbrace⟩ => by simp [CaseBlock.parts, CaseClause.plain_plans reading 0 clauses]

theorem CaseClause.plain_plans (reading : Reading) (i : Nat) :
    (list : List CaseClause) → PlainAll (CaseClause.plans reading i list)
  | [] => by simp [CaseClause.plans]
  | clause :: rest => by
    simp [CaseClause.plans, CaseClause.plain_plan reading _ clause,
      CaseClause.plain_plans reading (i + 1) rest]

theorem CaseClause.plain_plan (reading : Reading) (field : String) :
    (clause : CaseClause) → (clause.plan reading field).Plain
  | ⟨pos, list, colon, body⟩ => by
    cases reading with
    | value => simp [CaseClause.plan, Stmt.plain_plans 0 body,
        Expr.plain_plans .value [.condition, .expression] (by decide) 0 list]
    | type => simp [CaseClause.plan, Stmt.plain_plans 0 body,
        Expr.plain_plans .type [.condition, .type] (by decide) 0 list]

theorem CommClause.plain_plans (i : Nat) :
    (list : List CommClause) → PlainAll (CommClause.plans i list)
  | [] => by simp [CommClause.plans]
  | clause :: rest => by
    simp [CommClause.plans, CommClause.plain_plan _ clause, CommClause.plain_plans (i + 1) rest]

theorem CommClause.plain_plan (field : String) :
    (clause : CommClause) → (clause.plan field).Plain
  | ⟨pos, comm, colon, body⟩ => by
    simp [CommClause.plan, Stmt.plain_plan? [] Tag.plain_nil _ comm, Stmt.plain_plans 0 body]

/-- No token of a general declaration is tagged as a comment or as the end of the file. -/
theorem GenDecl.plain_plan (field : String) : (d : GenDecl) → (d.plan field).Plain
  | ⟨tokPos, kind, lparen, specs, rparen⟩ => by
    simp [GenDecl.plan, Spec.plain_plans kind 0 specs]

theorem Spec.plain_plans (kind : DeclKind) (i : Nat) :
    (list : List Spec) → PlainAll (Spec.plans kind i list)
  | [] => by simp [Spec.plans]
  | spec :: rest => by
    simp [Spec.plans, Spec.plain_plan kind _ spec, Spec.plain_plans kind (i + 1) rest]

theorem Spec.plain_plan (kind : DeclKind) (field : String) :
    (spec : Spec) → (spec.plan kind field).Plain
  | .imported name path => by
    have hname := plainAll_toList (fun n : Ident => n.plain_plan Tag.plain_nil "Name") name
    simp [Spec.plan, hname]
  | .value names ty values => by
    simp [Spec.plan, Expr.plain_plan? .type [.type] (by decide) _ ty,
      Expr.plain_plans .value [.expression] (by decide) 0 values]
  | .type name assign ty => by
    simp [Spec.plan, Expr.plain_plan .type [.type] (by decide) _ ty]

end

theorem FuncDecl.plain_plan (decl : FuncDecl) (field : String) : (decl.plan field).Plain := by
  have hrecv := plainAll_toList
    (fun recv : FieldList => recv.plain_plan .params [.parameterList] "Recv") decl.recv
  have hbody := plainAll_toList (fun body : Block => body.plain_plan [.block] "Body") decl.body
  have hname := decl.name.plain_plan (show Tag.Plain [.functionName] by decide) "Name"
  simp [FuncDecl.plan, hrecv, hbody, hname, decl.ty.plain_parts]

/-- **No token of a declaration** is tagged as a comment or as the end of the file. -/
theorem Decl.plain_plan (decl : Decl) (field : String) : (decl.plan field).Plain := by
  cases decl with
  | gen d => exact d.plain_plan field
  | func d => exact d.plain_plan field

end GoTree
