import GoTree.Mapping.Plan.Construct
import GoTree.Proofs.Syntax.Moved

/-!
# Plans of moved constructs

The plan of a construct takes its tags and labels from the shape of the construct and its offsets
from the construct itself.  So the plan of a moved construct is the plan of the construct with the
offsets of its tokens moved.

## Main definitions

* `Plan.move`: a plan with its offsets moved

## Main results

* `Expr.plan_move`, `Stmt.plan_move`, `Decl.plan_move`: planning after moving
-/

namespace GoTree

variable {f : Offset → Offset}

namespace Plan

mutual

/-- **A plan with its offsets moved.** -/
def move (f : Offset → Offset) : Plan → Plan
  | .nothing => .nothing
  | .token tags pos text label => .token tags (f pos) text label
  | .group tags label parts => .group tags label (moveAll f parts)

/-- The plans of a list with their offsets moved. -/
def moveAll (f : Offset → Offset) : List Plan → List Plan
  | [] => []
  | plan :: rest => move f plan :: moveAll f rest

end

@[simp]
theorem moveAll_eq (plans : List Plan) : moveAll f plans = plans.map (move f) := by
  induction plans with
  | nil => rfl
  | cons plan plans ih => rw [moveAll, ih, List.map_cons]

@[simp]
theorem move_nothing : move f .nothing = .nothing := by
  rw [move]

@[simp]
theorem move_token (tags : List Tag) (pos : Offset) (text label : String) :
    move f (.token tags pos text label) = .token tags (f pos) text label := by
  rw [move]

@[simp]
theorem move_group (tags : List Tag) (label : String) (parts : List Plan) :
    move f (.group tags label parts) = .group tags label (parts.map (move f)) := by
  rw [move, moveAll_eq]

@[simp]
theorem move_keyword (tags : List Tag) (pos : Offset) (word : Keyword) (label : String) :
    move f (keyword tags pos word label) = keyword tags (f pos) word label := by
  simp [keyword]

@[simp]
theorem move_symbol (tags : List Tag) (pos : Offset) (s : Symbol) (label : String) :
    move f (symbol tags pos s label) = symbol tags (f pos) s label := by
  simp [symbol]

@[simp]
theorem symbol?_map (tags : List Tag) (pos : Option Offset) (s : Symbol) (label : String) :
    symbol? tags (pos.map f) s label = (symbol? tags pos s label).map (move f) := by
  cases pos <;> simp [symbol?]

@[simp]
theorem keyword?_map (tags : List Tag) (pos : Option Offset) (word : Keyword) (label : String) :
    keyword? tags (pos.map f) word label = (keyword? tags pos word label).map (move f) := by
  cases pos <;> simp [keyword?]

/-- The elements of a list are planned at the same indices. -/
theorem elementsFrom_map {α : Type} {plan : α → String → Plan} {g : α → α}
    (h : ∀ a field, plan (g a) field = (plan a field).move f) (i : Nat) (list : List α) :
    elementsFrom plan i (list.map g) = (elementsFrom plan i list).map (move f) := by
  induction list generalizing i with
  | nil => rfl
  | cons a list ih => rw [List.map_cons, elementsFrom, elementsFrom, h, ih, List.map_cons]

end Plan

open Plan

/-! ### Names, literals and tags -/

@[simp]
theorem Ident.plan_move (ident : Ident) (tags : List Tag) (field : String) :
    (ident.move f).plan tags field = (ident.plan tags field).move f :=
  (move_token _ _ _ _).symm

@[simp]
theorem BasicLit.plan_move (lit : BasicLit) (tags : List Tag) (field : String) :
    (lit.move f).plan tags field = (lit.plan tags field).move f :=
  (move_token _ _ _ _).symm

@[simp]
theorem Ident.listPlan_map (names : List Ident) (tags : List Tag) :
    Ident.listPlan (names.map (Ident.move f)) tags = (Ident.listPlan names tags).move f := by
  rw [listPlan, listPlan, move_group,
    elementsFrom_map fun (name : Ident) field => name.plan_move tags field]

@[simp]
theorem Expr.specTags_move (e : Expr) : (e.move f).specTags = e.specTags := by
  cases e with
  | structType pos fields =>
    obtain ⟨opening, list, closing⟩ := fields
    simp [Expr.move, FieldList.move, specTags]
  | interfaceType pos methods =>
    obtain ⟨opening, list, closing⟩ := methods
    simp [Expr.move, FieldList.move, specTags]
  | _ => rfl

@[simp]
theorem Expr.statementTags_move (e : Expr) : (e.move f).statementTags = e.statementTags := by
  cases e with
  | call callee lparen args dots rparen => cases callee <;> rfl
  | _ => rfl

/-! ### Constructs -/

mutual

/-- **The plan of a moved expression.** -/
theorem Expr.plan_move (reading : Reading) (tags : List Tag) (field : String) :
    (e : Expr) → (e.move f).plan reading tags field = (e.plan reading tags field).move f
  | .ident i => by simp [Expr.move, Expr.plan]
  | .basicLit lit => by simp [Expr.move, Expr.plan]
  | .ellipsis pos none => by simp [Expr.move, Expr.plan]
  | .ellipsis pos (some elt) => by
    simp [Expr.move, Expr.plan, Expr.plan_move .type _ _ elt]
  | .funcLit ty body => by
    simp [Expr.move, Expr.plan, FuncType.parts_move ty, FuncType.func_move ty,
      Block.plan_move _ _ body]
  | .compositeLit ty lbrace elts rbrace => by
    simp [Expr.move, Expr.plan, Expr.plan?_map .type _ _ ty, Expr.plans_map .value _ 0 elts]
  | .paren lparen x rparen => by
    cases reading with
    | value => simp [Expr.move, Expr.plan, Expr.plan_move .value _ _ x]
    | type => simp [Expr.move, Expr.plan, Expr.plan_move .type _ _ x]
  | .selector x sel => by
    simp [Expr.move, Expr.plan, Expr.plan_move .value _ _ x]
  | .index x lbrack i rbrack => by
    simp [Expr.move, Expr.plan, Expr.plan_move .value _ _ x, Expr.plan_move .value _ _ i]
  | .slice x lbrack low high max _ rbrack => by
    simp [Expr.move, Expr.plan, Expr.plan_move .value _ _ x, Expr.plan?_map .value _ _ low,
      Expr.plan?_map .value _ _ high, Expr.plan?_map .value _ _ max]
  | .typeAssert x lparen ty rparen => by
    simp [Expr.move, Expr.plan, Expr.plan_move .value _ _ x, Expr.plan?_map .type _ _ ty]
  | .call callee lparen args dots rparen => by
    simp [Expr.move, Expr.plan, Expr.plan_move .value _ _ callee, Expr.plans_map .value _ 0 args]
  | .star pos x => by
    cases reading with
    | value => simp [Expr.move, Expr.plan, Expr.plan_move .value _ _ x]
    | type => simp [Expr.move, Expr.plan, Expr.plan_move .type _ _ x]
  | .unary opPos op x => by
    simp [Expr.move, Expr.plan, Expr.plan_move .value _ _ x]
  | .binary x opPos op y => by
    simp [Expr.move, Expr.plan, Expr.plan_move .value _ _ x, Expr.plan_move .value _ _ y]
  | .keyValue key colon value => by
    simp [Expr.move, Expr.plan, Expr.plan_move .value _ _ key, Expr.plan_move .value _ _ value]
  | .arrayType lbrack len elt => by
    simp [Expr.move, Expr.plan, Expr.plan?_map .value _ _ len, Expr.plan_move .type _ _ elt]
  | .structType pos fields => by
    simp [Expr.move, Expr.plan, FieldList.plan_move .struct _ _ fields]
  | .funcType ty => by
    simp [Expr.move, Expr.plan, FuncType.parts_move ty, FuncType.func_move ty]
  | .interfaceType pos methods => by
    simp [Expr.move, Expr.plan, FieldList.plan_move .interface _ _ methods]
  | .mapType pos key value => by
    simp [Expr.move, Expr.plan, Expr.plan_move .type _ _ key, Expr.plan_move .type _ _ value]
  | .chanType pos arrow dir value => by
    cases dir <;> simp [Expr.move, Expr.plan, Expr.plan_move .type _ _ value]

theorem Expr.plan?_map (reading : Reading) (tags : List Tag) (field : String) :
    (e : Option Expr) → Expr.plan? reading tags field (e.map (Expr.move f)) =
      (Expr.plan? reading tags field e).map (Plan.move f)
  | none => rfl
  | some e => by simp [Expr.plan?, Expr.plan_move reading tags field e]

theorem Expr.plans_map (reading : Reading) (tags : List Tag) (i : Nat) :
    (list : List Expr) → Expr.plans reading tags i (list.map (Expr.move f)) =
      (Expr.plans reading tags i list).map (Plan.move f)
  | [] => rfl
  | e :: rest => by
    simp [Expr.plans, Expr.plan_move reading tags _ e, Expr.plans_map reading tags (i + 1) rest]

theorem FuncType.func_move : (ty : FuncType) → (ty.move f).func = ty.func.map f
  | ⟨_, _, _⟩ => rfl

theorem FuncType.parts_move : (ty : FuncType) → (ty.move f).parts = ty.parts.map (Plan.move f)
  | ⟨_, params, results⟩ => by
    simp [FuncType.move, FuncType.parts, FieldList.plan_move .params _ _ params,
      FieldList.resultPlan?_map results]

theorem FieldList.resultPlan?_map : (results : Option FieldList) →
    FieldList.resultPlan? (results.map (FieldList.move f)) =
      (FieldList.resultPlan? results).map (Plan.move f)
  | none => rfl
  | some results => by
    simp [FieldList.resultPlan?, FieldList.plan_move .results _ _ results]

theorem FieldList.plan_move (role : FieldRole) (tags : List Tag) (field : String) :
    (list : FieldList) → (list.move f).plan role tags field = (list.plan role tags field).move f
  | ⟨opening, list, closing⟩ => by
    simp [FieldList.move, FieldList.plan, Field.plans_map role 0 list]

theorem Field.plans_map (role : FieldRole) (i : Nat) :
    (list : List Field) → Field.plans role i (list.map (Field.move f)) =
      (Field.plans role i list).map (Plan.move f)
  | [] => rfl
  | field :: rest => by
    simp [Field.plans, Field.plan_move role _ field, Field.plans_map role (i + 1) rest]

theorem Field.plan_move (role : FieldRole) (name : String) :
    (field : Field) → (field.move f).plan role name = (field.plan role name).move f
  | ⟨names, ty, tag⟩ => by
    cases tag <;> simp [Field.move, Field.plan, Expr.plan_move .type _ _ ty]

theorem Block.plan_move (tags : List Tag) (field : String) :
    (b : Block) → (b.move f).plan tags field = (b.plan tags field).move f
  | ⟨lbrace, list, rbrace⟩ => by simp [Block.move, Block.plan, Stmt.plans_map 0 list]

/-- **The plan of a moved statement.** -/
theorem Stmt.plan_move (tags : List Tag) (field : String) :
    (s : Stmt) → (s.move f).plan tags field = (s.plan tags field).move f
  | .empty e => by
    simp only [Stmt.move, Stmt.plan, EmptyStmt.move]
    split <;> simp
  | .block b => by simp [Stmt.move, Stmt.plan, Block.plan_move _ _ b]
  | .labeled label colon stmt => by simp [Stmt.move, Stmt.plan, Stmt.plan_move _ _ stmt]
  | .decl d => by simp [Stmt.move, Stmt.plan, GenDecl.plan_move _ d]
  | .expr x => by simp [Stmt.move, Stmt.plan, Expr.plan_move .value _ _ x]
  | .send chan arrow value => by
    simp [Stmt.move, Stmt.plan, Expr.plan_move .value _ _ chan, Expr.plan_move .value _ _ value]
  | .step x tokPos op => by simp [Stmt.move, Stmt.plan, Expr.plan_move .value _ _ x]
  | .assign lhs tok rhs => by
    simp [Stmt.move, Stmt.plan, AssignTok.move, Expr.plans_map .value _ 0 lhs,
      Expr.plans_map .value _ 0 rhs]
  | .goCall pos call => by simp [Stmt.move, Stmt.plan, Expr.plan_move .value _ _ call]
  | .deferCall pos call => by simp [Stmt.move, Stmt.plan, Expr.plan_move .value _ _ call]
  | .returns pos results => by
    simp [Stmt.move, Stmt.plan, Expr.plans_map .value _ 0 results]
  | .branch tokPos kind label => by
    cases label <;> simp [Stmt.move, Stmt.plan]
  | .ifThen pos init cond body orElse => by
    simp [Stmt.move, Stmt.plan, Stmt.plan?_map _ _ init, Block.plan_move _ _ body,
      Expr.plan_move .value _ _ cond, Stmt.elsePlan?_map orElse]
  | .switch pos init tag body => by
    simp [Stmt.move, Stmt.plan, Stmt.plan?_map _ _ init, Expr.plan?_map .value _ _ tag,
      CaseBlock.parts_move .value body]
  | .typeSwitch pos init guard body => by
    simp [Stmt.move, Stmt.plan, Stmt.plan?_map _ _ init, Stmt.plan_move _ _ guard,
      CaseBlock.parts_move .type body]
  | .select pos lbrace clauses rbrace => by
    simp [Stmt.move, Stmt.plan, CommClause.plans_map 0 clauses]
  | .forLoop pos init cond post body => by
    simp [Stmt.move, Stmt.plan, Stmt.plan?_map _ _ init, Expr.plan?_map .value _ _ cond,
      Stmt.plan?_map _ _ post, Block.plan_move _ _ body]
  | .rangeLoop pos key value tok x body => by
    cases tok <;>
      simp [Stmt.move, Stmt.plan, AssignTok.move, Expr.plan?_map .value _ _ key,
        Expr.plan?_map .value _ _ value, Expr.plan_move .value _ _ x, Block.plan_move _ _ body]

theorem Stmt.plan?_map (tags : List Tag) (field : String) :
    (s : Option Stmt) → Stmt.plan? tags field (s.map (Stmt.move f)) =
      (Stmt.plan? tags field s).map (Plan.move f)
  | none => rfl
  | some s => by simp [Stmt.plan?, Stmt.plan_move tags field s]

theorem Stmt.elsePlan?_map : (s : Option Stmt) →
    Stmt.elsePlan? (s.map (Stmt.move f)) = (Stmt.elsePlan? s).map (Plan.move f)
  | none => rfl
  | some s => by
    have hplan := Stmt.plan_move [.elseBranch] "Else" s
    cases s with
    | block b => simp [Stmt.move, Stmt.elsePlan?, Block.plan_move _ _ b]
    | _ => simpa [Stmt.move, Stmt.elsePlan?] using hplan

theorem Stmt.plans_map (i : Nat) : (list : List Stmt) →
    Stmt.plans i (list.map (Stmt.move f)) = (Stmt.plans i list).map (Plan.move f)
  | [] => rfl
  | s :: rest => by simp [Stmt.plans, Stmt.plan_move _ _ s, Stmt.plans_map (i + 1) rest]

theorem CaseBlock.parts_move (reading : Reading) :
    (b : CaseBlock) → (b.move f).parts reading = (b.parts reading).map (Plan.move f)
  | ⟨lbrace, clauses, rbrace⟩ => by
    simp [CaseBlock.move, CaseBlock.parts, CaseClause.plans_map reading 0 clauses]

theorem CaseClause.plans_map (reading : Reading) (i : Nat) : (list : List CaseClause) →
    CaseClause.plans reading i (list.map (CaseClause.move f)) =
      (CaseClause.plans reading i list).map (Plan.move f)
  | [] => rfl
  | clause :: rest => by
    simp [CaseClause.plans, CaseClause.plan_move reading _ clause,
      CaseClause.plans_map reading (i + 1) rest]

theorem CaseClause.plan_move (reading : Reading) (field : String) :
    (clause : CaseClause) → (clause.move f).plan reading field = (clause.plan reading field).move f
  | ⟨pos, list, colon, body⟩ => by
    simp [CaseClause.move, CaseClause.plan, Expr.plans_map reading _ 0 list,
      Stmt.plans_map 0 body]

theorem CommClause.plans_map (i : Nat) : (list : List CommClause) →
    CommClause.plans i (list.map (CommClause.move f)) =
      (CommClause.plans i list).map (Plan.move f)
  | [] => rfl
  | clause :: rest => by
    simp [CommClause.plans, CommClause.plan_move _ clause, CommClause.plans_map (i + 1) rest]

theorem CommClause.plan_move (field : String) :
    (clause : CommClause) → (clause.move f).plan field = (clause.plan field).move f
  | ⟨pos, comm, colon, body⟩ => by
    simp [CommClause.move, CommClause.plan, Stmt.plan?_map _ _ comm, Stmt.plans_map 0 body]

/-- The plan of a moved general declaration. -/
theorem GenDecl.plan_move (field : String) :
    (d : GenDecl) → (d.move f).plan field = (d.plan field).move f
  | ⟨tokPos, kind, lparen, specs, rparen⟩ => by
    simp [GenDecl.move, GenDecl.plan, Spec.plans_map kind 0 specs]

theorem Spec.plans_map (kind : DeclKind) (i : Nat) : (list : List Spec) →
    Spec.plans kind i (list.map (Spec.move f)) = (Spec.plans kind i list).map (Plan.move f)
  | [] => rfl
  | spec :: rest => by
    simp [Spec.plans, Spec.plan_move kind _ spec, Spec.plans_map kind (i + 1) rest]

theorem Spec.plan_move (kind : DeclKind) (field : String) :
    (spec : Spec) → (spec.move f).plan kind field = (spec.plan kind field).move f
  | .imported name path => by
    cases name <;> simp [Spec.move, Spec.plan]
  | .value names ty values => by
    simp [Spec.move, Spec.plan, Expr.plan?_map .type _ _ ty, Expr.plans_map .value _ 0 values]
  | .type name assign ty => by
    simp [Spec.move, Spec.plan, Expr.plan_move .type _ _ ty]

end

theorem FuncDecl.plan_move (decl : FuncDecl) (field : String) :
    (decl.move f).plan field = (decl.plan field).move f := by
  obtain ⟨func, recv, name, ty, body⟩ := decl
  cases recv <;> cases body <;>
    simp [FuncDecl.move, FuncDecl.plan, FieldList.plan_move, FuncType.parts_move, Block.plan_move]

/-- **The plan of a moved declaration.** -/
theorem Decl.plan_move (decl : Decl) (field : String) :
    (decl.move f).plan field = (decl.plan field).move f := by
  cases decl with
  | gen d => exact d.plan_move field
  | func d => exact d.plan_move field

end GoTree
