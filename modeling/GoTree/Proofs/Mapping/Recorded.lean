import GoTree.Mapping.File
import GoTree.Proofs.Mapping.Document
import GoTree.Proofs.Syntax.Recorded

/-!
# Plans keep the recorded tokens

The tokens of a plan are the recorded tokens of its construct, in the order of the source.  How a
construct is read, the tags it is given and the field it fills change only tags and labels; the tags
leave the class of every token as it is, unless they name a class themselves.

## Main definitions

* `TokenClass.ofTags`: the class that the tags of a token tell
* `Tag.Unclassed`: tags that tell no class
* `Plan.recorded`: the tokens of a plan by their offsets, texts and classes

## Main results

* `Expr.recorded_plan`, `Stmt.recorded_plan`, `Decl.recorded_plan`: no token is lost or moved
* `File.recorded_planned`: the planned tokens of a file are its recorded tokens
-/

namespace GoTree

/-! ### Classes and tags -/

/-- **The class of a token,** by its tags. -/
def TokenClass.ofTags (tags : List Tag) : TokenClass :=
  if .keyword ∈ tags then .keyword
  else if .stringLiteral ∈ tags then .stringLiteral
  else .other

theorem TokenClass.ofNode_eq (node : Node) : ofNode node = ofTags node.tags := by
  simp [ofNode, ofTags, Node.hasTag]

/-- Tags of which none tells the class of a token. -/
def Tag.Unclassed (tags : List Tag) : Prop :=
  .keyword ∉ tags ∧ .stringLiteral ∉ tags

instance (tags : List Tag) : Decidable (Tag.Unclassed tags) :=
  inferInstanceAs (Decidable (_ ∧ _))

namespace Tag

@[simp]
theorem unclassed_nil : Unclassed [] := by decide

@[simp]
theorem unclassed_cons {tag : Tag} {tags : List Tag} :
    Unclassed (tag :: tags) ↔ (tag ≠ .keyword ∧ tag ≠ .stringLiteral) ∧ Unclassed tags := by
  simp only [Unclassed, List.mem_cons, not_or, eq_comm, ne_eq]
  tauto

@[simp]
theorem unclassed_append {tags more : List Tag} :
    Unclassed (tags ++ more) ↔ Unclassed tags ∧ Unclassed more := by
  simp only [Unclassed, List.mem_append, not_or]
  tauto

/-- A part is an expression or not; this tells no class. -/
@[simp]
theorem unclassed_nested {whole role : List Tag} :
    Unclassed (Plan.nested whole role) ↔ Unclassed role := by
  unfold Plan.nested
  split <;> simp

end Tag

namespace TokenClass

variable {tags more : List Tag}

/-- Only the other tags tell the class. -/
theorem ofTags_append (h : Tag.Unclassed tags) (more : List Tag) :
    ofTags (tags ++ more) = ofTags more := by
  simp [ofTags, h.1, h.2]

theorem ofTags_of_unclassed (h : Tag.Unclassed tags) : ofTags tags = .other := by
  simp [ofTags, h.1, h.2]

@[simp]
theorem ofTags_append_keyword (tags : List Tag) : ofTags (tags ++ [.keyword]) = .keyword := by
  simp [ofTags]

end TokenClass

@[simp]
theorem Ident.unclassed_tags (ident : Ident) : Tag.Unclassed ident.tags := by
  unfold tags
  split
  · decide
  · split <;> decide

/-- The tags of a literal tell its class. -/
@[simp]
theorem BasicLit.ofTags_tags (lit : BasicLit) : TokenClass.ofTags lit.tags = lit.kind.tokenClass := by
  have hbase : integerBase lit.value ≠ .keyword ∧ integerBase lit.value ≠ .stringLiteral := by
    unfold integerBase
    split
    · split
      · decide
      · split <;> decide
    · decide
  obtain ⟨pos, kind, value⟩ := lit
  cases kind with
  | int => simp [tags, TokenClass.ofTags, Literal.tokenClass, hbase.1.symm, hbase.2.symm]
  | _ => rfl

@[simp]
theorem DeclKind.unclassed_nameTags (kind : DeclKind) : Tag.Unclassed kind.nameTags := by
  cases kind <;> decide

@[simp]
theorem FieldRole.unclassed_nameTags (role : FieldRole) (named : Bool) :
    Tag.Unclassed (role.nameTags named) := by
  cases role <;> cases named <;> decide

/-! ### Plans -/

/-- A token of a plan by its offset, text and class. -/
def Plan.Leaf.recorded (leaf : Plan.Leaf) : Recorded :=
  ⟨leaf.pos, leaf.text, .ofTags leaf.tags⟩

namespace Plan

/-- The tokens of a plan by their offsets, texts and classes. -/
def recorded (plan : Plan) : List Recorded :=
  plan.leaves.map Leaf.recorded

/-- The tokens of several plans by their offsets, texts and classes. -/
def recordedAll (plans : List Plan) : List Recorded :=
  (leavesAll plans).map Leaf.recorded

@[simp]
theorem recorded_nothing : recorded .nothing = [] := rfl

@[simp]
theorem recorded_token (tags : List Tag) (pos : Offset) (text label : String) :
    recorded (.token tags pos text label) = [⟨pos, text, .ofTags tags⟩] := rfl

@[simp]
theorem recorded_group (tags : List Tag) (label : String) (parts : List Plan) :
    recorded (.group tags label parts) = recordedAll parts := rfl

@[simp]
theorem recorded_symbol {tags : List Tag} (h : Tag.Unclassed tags) (pos : Offset) (s : Symbol)
    (label : String) : recorded (symbol tags pos s label) = [.symbol pos s] := by
  simp [symbol, Recorded.symbol, TokenClass.ofTags_of_unclassed h]

@[simp]
theorem recorded_keyword (tags : List Tag) (pos : Offset) (word : Keyword) (label : String) :
    recorded (keyword tags pos word label) = [.keyword pos word] := by
  simp [keyword, Recorded.keyword]

@[simp]
theorem recordedAll_nil : recordedAll [] = [] := rfl

@[simp]
theorem recordedAll_cons (plan : Plan) (rest : List Plan) :
    recordedAll (plan :: rest) = plan.recorded ++ recordedAll rest := by
  simp [recordedAll, recorded]

@[simp]
theorem recordedAll_append (plans rest : List Plan) :
    recordedAll (plans ++ rest) = recordedAll plans ++ recordedAll rest := by
  simp [recordedAll]

@[simp]
theorem recordedAll_symbol? {tags : List Tag} (h : Tag.Unclassed tags) (pos : Option Offset)
    (s : Symbol) (label : String) :
    recordedAll (symbol? tags pos s label) = Recorded.symbol? pos s := by
  cases pos <;> simp [symbol?, h]

@[simp]
theorem recordedAll_keyword? (tags : List Tag) (pos : Option Offset) (word : Keyword)
    (label : String) : recordedAll (keyword? tags pos word label) = Recorded.keyword? pos word := by
  cases pos <;> simp [keyword?]

theorem recordedAll_elementsFrom {α : Type} {plan : α → String → Plan} {tokens : α → List Recorded}
    (h : ∀ a field, (plan a field).recorded = tokens a) (i : Nat) (list : List α) :
    recordedAll (elementsFrom plan i list) = list.flatMap tokens := by
  induction list generalizing i with
  | nil => rfl
  | cons a list ih => simp [elementsFrom, h, ih]

/-- A plan that may be absent has the tokens of what it is for. -/
theorem recordedAll_toList {α : Type} {plan : α → Plan} {token : α → Recorded}
    (h : ∀ a, (plan a).recorded = [token a]) (o : Option α) :
    recordedAll (o.map plan).toList = (o.map token).toList := by
  cases o <;> simp [h]

end Plan

open Plan

@[simp]
theorem Ident.recorded_plan (ident : Ident) {tags : List Tag} (h : Tag.Unclassed tags)
    (field : String) : (ident.plan tags field).recorded = [ident.recorded] := by
  have hclass : TokenClass.ofTags (tags ++ ident.tags) = .other :=
    TokenClass.ofTags_of_unclassed (by simp [h])
  simp [plan, recorded, hclass]

@[simp]
theorem BasicLit.recorded_plan (lit : BasicLit) {tags : List Tag} (h : Tag.Unclassed tags)
    (field : String) : (lit.plan tags field).recorded = [lit.recorded] := by
  simp [plan, recorded, TokenClass.ofTags_append h]

@[simp]
theorem Ident.recorded_listPlan (names : List Ident) {tags : List Tag} (h : Tag.Unclassed tags) :
    (Ident.listPlan names tags).recorded = names.map Ident.recorded := by
  rw [listPlan, recorded_group,
    recordedAll_elementsFrom (fun name field => name.recorded_plan h field)]
  exact List.map_eq_flatMap.symm

mutual

/-- **The plan of an expression** has the tokens the expression records. -/
theorem Expr.recorded_plan (reading : Reading) (tags : List Tag) (field : String) :
    (e : Expr) → Tag.Unclassed tags → (e.plan reading tags field).recorded = e.recorded
  | .ident i, h => by simp [Expr.plan, h]
  | .basicLit lit, h => by simp [Expr.plan, h]
  | .ellipsis pos none, h => by simp [Expr.plan, Expr.recorded?, h]
  | .ellipsis pos (some elt), _ => by
    simp [Expr.plan, Expr.recorded?, Expr.recorded_plan .type _ _ elt]
  | .funcLit ty body, _ => by
    simp [Expr.plan, FuncType.recorded_parts ty, Block.recorded_plan _ _ body]
  | .compositeLit ty lbrace elts rbrace, _ => by
    simp [Expr.plan, Expr.recorded_plan? .type _ _ ty, Expr.recorded_plans .value _ 0 elts]
  | .paren lparen x rparen, _ => by
    cases reading with
    | value => simp [Expr.plan, Expr.recorded_plan .value _ _ x]
    | type => simp [Expr.plan, Expr.recorded_plan .type _ _ x]
  | .selector x sel, _ => by
    simp [Expr.plan, Expr.recorded_plan .value _ _ x]
  | .index x lbrack i rbrack, _ => by
    simp [Expr.plan, Expr.recorded_plan .value _ _ x, Expr.recorded_plan .value _ _ i]
  | .slice x lbrack low high max _ rbrack, _ => by
    simp [Expr.plan, Expr.recorded_plan .value _ _ x, Expr.recorded_plan? .value _ _ low,
      Expr.recorded_plan? .value _ _ high, Expr.recorded_plan? .value _ _ max]
  | .typeAssert x lparen ty rparen, _ => by
    simp [Expr.plan, Expr.recorded_plan .value _ _ x, Expr.recorded_plan? .type _ _ ty]
  | .call callee lparen args dots rparen, _ => by
    simp [Expr.plan, Expr.recorded_plan .value _ _ callee, Expr.recorded_plans .value _ 0 args]
  | .star pos x, _ => by
    cases reading with
    | value => simp [Expr.plan, Expr.recorded_plan .value _ _ x]
    | type => simp [Expr.plan, Expr.recorded_plan .type _ _ x]
  | .unary opPos op x, _ => by
    simp [Expr.plan, Expr.recorded_plan .value _ _ x]
  | .binary x opPos op y, _ => by
    simp [Expr.plan, Expr.recorded_plan .value _ _ x, Expr.recorded_plan .value _ _ y]
  | .keyValue key colon value, _ => by
    simp [Expr.plan, Expr.recorded_plan .value _ _ key, Expr.recorded_plan .value _ _ value]
  | .arrayType lbrack len elt, _ => by
    simp [Expr.plan, Expr.recorded_plan? .value _ _ len, Expr.recorded_plan .type _ _ elt]
  | .structType pos fields, _ => by
    simp [Expr.plan, FieldList.recorded_plan .struct _ _ fields, FieldRole.brackets]
  | .funcType ty, _ => by
    simp [Expr.plan, FuncType.recorded_parts ty]
  | .interfaceType pos methods, _ => by
    simp [Expr.plan, FieldList.recorded_plan .interface _ _ methods, FieldRole.brackets]
  | .mapType pos key value, _ => by
    simp [Expr.plan, Expr.recorded_plan .type _ _ key, Expr.recorded_plan .type _ _ value]
  | .chanType pos arrow dir value, _ => by
    cases dir <;> simp [Expr.plan, Expr.recorded_plan .type _ _ value]

theorem Expr.recorded_plan? (reading : Reading) (tags : List Tag) (field : String) :
    (e : Option Expr) → Tag.Unclassed tags →
      recordedAll (Expr.plan? reading tags field e) = Expr.recorded? e
  | none, _ => rfl
  | some e, h => by simp [Expr.plan?, Expr.recorded?, Expr.recorded_plan reading tags field e h]

theorem Expr.recorded_plans (reading : Reading) (tags : List Tag) (i : Nat) :
    (list : List Expr) → Tag.Unclassed tags →
      recordedAll (Expr.plans reading tags i list) = list.flatMap Expr.recorded
  | [], _ => rfl
  | e :: rest, h => by
    simp [Expr.plans, Expr.recorded_plan reading tags _ e h,
      Expr.recorded_plans reading tags (i + 1) rest h]

theorem FuncType.recorded_parts : (ty : FuncType) → recordedAll ty.parts = ty.recorded
  | ⟨_, params, results⟩ => by
    simp [FuncType.parts, FuncType.recorded, FieldList.recorded_plan .params _ _ params,
      FieldList.recorded_resultPlan? results, FieldRole.brackets]

theorem FieldList.recorded_resultPlan? : (results : Option FieldList) →
    recordedAll (FieldList.resultPlan? results) = FieldList.recordedResults results
  | none => rfl
  | some results => by
    simp [FieldList.resultPlan?, FieldList.recordedResults,
      FieldList.recorded_plan .results _ _ results, FieldRole.brackets]

theorem FieldList.recorded_plan (role : FieldRole) (tags : List Tag) (field : String) :
    (list : FieldList) →
      (list.plan role tags field).recorded = list.recorded role.brackets.1 role.brackets.2
  | ⟨opening, list, closing⟩ => by
    simp [FieldList.plan, FieldList.recorded, Field.recorded_plans role 0 list]

theorem Field.recorded_plans (role : FieldRole) (i : Nat) :
    (list : List Field) → recordedAll (Field.plans role i list) = list.flatMap Field.recorded
  | [] => rfl
  | f :: rest => by
    simp [Field.plans, Field.recorded_plan role _ f, Field.recorded_plans role (i + 1) rest]

theorem Field.recorded_plan (role : FieldRole) (field : String) :
    (f : Field) → (f.plan role field).recorded = f.recorded
  | ⟨names, ty, tag⟩ => by
    have htag := recordedAll_toList
      (fun lit : BasicLit => lit.recorded_plan Tag.unclassed_nil "Tag") tag
    simp [Field.plan, Field.recorded, Expr.recorded_plan .type _ _ ty, htag]

theorem Block.recorded_plan (tags : List Tag) (field : String) :
    (b : Block) → (b.plan tags field).recorded = b.recorded
  | ⟨lbrace, list, rbrace⟩ => by simp [Block.plan, Block.recorded, Stmt.recorded_plans 0 list]

/-- **The plan of a statement** has the tokens the statement records. -/
theorem Stmt.recorded_plan (tags : List Tag) (field : String) :
    (s : Stmt) → Tag.Unclassed tags → (s.plan tags field).recorded = s.recorded
  | .empty e, h => by
    unfold Stmt.plan Stmt.recorded
    split <;> simp [h]
  | .block b, _ => by simp [Stmt.plan, Block.recorded_plan _ _ b]
  | .labeled label colon stmt, _ => by simp [Stmt.plan, Stmt.recorded_plan _ _ stmt]
  | .decl d, _ => by simp [Stmt.plan, GenDecl.recorded_plan _ d]
  | .expr x, _ => by simp [Stmt.plan, Expr.recorded_plan .value _ _ x]
  | .send chan arrow value, _ => by
    simp [Stmt.plan, Expr.recorded_plan .value _ _ chan, Expr.recorded_plan .value _ _ value]
  | .step x tokPos op, _ => by simp [Stmt.plan, Expr.recorded_plan .value _ _ x]
  | .assign lhs tok rhs, _ => by
    simp [Stmt.plan, Expr.recorded_plans .value _ 0 lhs, Expr.recorded_plans .value _ 0 rhs]
  | .goCall pos call, _ => by simp [Stmt.plan, Expr.recorded_plan .value _ _ call]
  | .deferCall pos call, _ => by simp [Stmt.plan, Expr.recorded_plan .value _ _ call]
  | .returns pos results, _ => by
    simp [Stmt.plan, Expr.recorded_plans .value _ 0 results]
  | .branch tokPos kind label, _ => by
    have htags : Tag.Unclassed [.branchLabel] := by decide
    have hlabel := recordedAll_toList (fun name : Ident => name.recorded_plan htags "Label") label
    simp [Stmt.plan, hlabel]
  | .ifThen pos init cond body orElse, _ => by
    simp [Stmt.plan, Stmt.recorded_plan? _ _ init, Block.recorded_plan _ _ body,
      Expr.recorded_plan .value _ _ cond, Stmt.recorded_elsePlan? orElse]
  | .switch pos init tag body, _ => by
    simp [Stmt.plan, Stmt.recorded_plan? _ _ init, Expr.recorded_plan? .value _ _ tag,
      CaseBlock.recorded_parts .value body]
  | .typeSwitch pos init guard body, _ => by
    simp [Stmt.plan, Stmt.recorded_plan? _ _ init, Stmt.recorded_plan _ _ guard,
      CaseBlock.recorded_parts .type body]
  | .select pos lbrace clauses rbrace, _ => by
    simp [Stmt.plan, CommClause.recorded_plans 0 clauses]
  | .forLoop pos init cond post body, _ => by
    simp [Stmt.plan, Stmt.recorded_plan? _ _ init, Expr.recorded_plan? .value _ _ cond,
      Stmt.recorded_plan? _ _ post, Block.recorded_plan _ _ body]
  | .rangeLoop pos key value tok x body, _ => by
    have hsymbol (t : AssignTok) :
        (Plan.symbol [.assignmentOperator] t.pos t.op.symbol "Tok").recorded =
          [.symbol t.pos t.op.symbol] := by simp
    have htok := recordedAll_toList hsymbol tok
    simp [Stmt.plan, Expr.recorded_plan? .value _ _ key, Expr.recorded_plan? .value _ _ value,
      htok, Expr.recorded_plan .value _ _ x, Block.recorded_plan _ _ body]

theorem Stmt.recorded_plan? (tags : List Tag) (field : String) :
    (s : Option Stmt) → Tag.Unclassed tags →
      recordedAll (Stmt.plan? tags field s) = Stmt.recorded? s
  | none, _ => rfl
  | some s, h => by simp [Stmt.plan?, Stmt.recorded?, Stmt.recorded_plan tags field s h]

theorem Stmt.recorded_elsePlan? :
    (s : Option Stmt) → recordedAll (Stmt.elsePlan? s) = Stmt.recorded? s
  | none => rfl
  | some s => by
    have hplan := Stmt.recorded_plan [.elseBranch] "Else" s (by decide)
    cases s with
    | block b => simp [Stmt.elsePlan?, Stmt.recorded?, Block.recorded_plan _ _ b]
    | _ => simpa [Stmt.elsePlan?, Stmt.recorded?] using hplan

theorem Stmt.recorded_plans (i : Nat) :
    (list : List Stmt) → recordedAll (Stmt.plans i list) = list.flatMap Stmt.recorded
  | [] => rfl
  | s :: rest => by
    simp [Stmt.plans, Stmt.recorded_plan _ _ s, Stmt.recorded_plans (i + 1) rest]

theorem CaseBlock.recorded_parts (reading : Reading) :
    (b : CaseBlock) → recordedAll (b.parts reading) = b.recorded
  | ⟨lbrace, clauses, rbrace⟩ => by
    simp [CaseBlock.parts, CaseBlock.recorded, CaseClause.recorded_plans reading 0 clauses]

theorem CaseClause.recorded_plans (reading : Reading) (i : Nat) : (list : List CaseClause) →
    recordedAll (CaseClause.plans reading i list) = list.flatMap CaseClause.recorded
  | [] => rfl
  | clause :: rest => by
    simp [CaseClause.plans, CaseClause.recorded_plan reading _ clause,
      CaseClause.recorded_plans reading (i + 1) rest]

theorem CaseClause.recorded_plan (reading : Reading) (field : String) :
    (clause : CaseClause) → (clause.plan reading field).recorded = clause.recorded
  | ⟨pos, list, colon, body⟩ => by
    cases reading with
    | value => simp [CaseClause.plan, CaseClause.recorded, Stmt.recorded_plans 0 body,
        Expr.recorded_plans .value [.condition, .expression] 0 list]
    | type => simp [CaseClause.plan, CaseClause.recorded, Stmt.recorded_plans 0 body,
        Expr.recorded_plans .type [.condition, .type] 0 list]

theorem CommClause.recorded_plans (i : Nat) : (list : List CommClause) →
    recordedAll (CommClause.plans i list) = list.flatMap CommClause.recorded
  | [] => rfl
  | clause :: rest => by
    simp [CommClause.plans, CommClause.recorded_plan _ clause,
      CommClause.recorded_plans (i + 1) rest]

theorem CommClause.recorded_plan (field : String) :
    (clause : CommClause) → (clause.plan field).recorded = clause.recorded
  | ⟨pos, comm, colon, body⟩ => by
    simp [CommClause.plan, CommClause.recorded, Stmt.recorded_plan? _ _ comm,
      Stmt.recorded_plans 0 body]

/-- The plan of a general declaration has the tokens the declaration records. -/
theorem GenDecl.recorded_plan (field : String) :
    (d : GenDecl) → (d.plan field).recorded = d.recorded
  | ⟨tokPos, kind, lparen, specs, rparen⟩ => by
    simp [GenDecl.plan, GenDecl.recorded, Spec.recorded_plans kind 0 specs]

theorem Spec.recorded_plans (kind : DeclKind) (i : Nat) :
    (list : List Spec) → recordedAll (Spec.plans kind i list) = list.flatMap Spec.recorded
  | [] => rfl
  | spec :: rest => by
    simp [Spec.plans, Spec.recorded_plan kind _ spec, Spec.recorded_plans kind (i + 1) rest]

theorem Spec.recorded_plan (kind : DeclKind) (field : String) :
    (spec : Spec) → (spec.plan kind field).recorded = spec.recorded
  | .imported name path => by
    have hname := recordedAll_toList (fun n : Ident => n.recorded_plan Tag.unclassed_nil "Name") name
    simp [Spec.plan, Spec.recorded, hname]
  | .value names ty values => by
    simp [Spec.plan, Spec.recorded, Expr.recorded_plan? .type _ _ ty,
      Expr.recorded_plans .value _ 0 values]
  | .type name assign ty => by
    simp [Spec.plan, Spec.recorded, Expr.recorded_plan .type _ _ ty]

end

theorem FuncDecl.recorded_plan (decl : FuncDecl) (field : String) :
    (decl.plan field).recorded = decl.recorded := by
  obtain ⟨func, recv, name, ty, body⟩ := decl
  cases recv <;> cases body <;>
    simp [FuncDecl.plan, FuncDecl.recorded, FieldList.recorded_plan, FuncType.recorded_parts,
      Block.recorded_plan, FieldRole.brackets]

/-- **The plan of a declaration** has the tokens the declaration records. -/
theorem Decl.recorded_plan (decl : Decl) (field : String) :
    (decl.plan field).recorded = decl.recorded := by
  cases decl with
  | gen d => exact d.recorded_plan field
  | func d => exact d.recorded_plan field

/-! ### Any tags -/

/-- Of the tags of the whole, a part only keeps whether it is an expression. -/
@[simp]
theorem Plan.nested_nested (whole role : List Tag) :
    nested (nested whole []) role = nested whole role := by
  unfold nested
  split <;> simp

/-- **Whatever tags it is given,** the plan of an expression has the tokens the expression records,
up to their classes. -/
theorem Expr.untyped_plan (e : Expr) (reading : Reading) (tags : List Tag) (field : String) :
    (e.plan reading tags field).recorded.map Recorded.untyped = e.recorded.map Recorded.untyped := by
  -- only a plan of one token gives it the tags
  have hplan := e.recorded_plan reading (nested tags []) field (by simp)
  cases e with
  | ident i => rfl
  | basicLit lit => rfl
  | ellipsis pos elt =>
    cases elt with
    | none => rfl
    | some elt => exact congrArg _ hplan
  | paren | star =>
    cases reading <;>
      · simp only [Expr.plan, recorded_group, nested_nested] at hplan ⊢
        rw [hplan]
  | _ =>
    simp only [Expr.plan, recorded_group, nested_nested] at hplan ⊢
    rw [hplan]

/-- Whatever tags it is given, the plan of a statement has the tokens the statement records, up to
their classes. -/
theorem Stmt.untyped_plan (s : Stmt) (tags : List Tag) (field : String) :
    (s.plan tags field).recorded.map Recorded.untyped = s.recorded.map Recorded.untyped := by
  have hplan := Stmt.recorded_plan [] field s Tag.unclassed_nil
  cases s with
  | empty e =>
    unfold Stmt.plan Stmt.recorded
    split <;> rfl
  | block b => exact congrArg _ (b.recorded_plan _ field)
  | _ =>
    simp only [Stmt.plan, recorded_group] at hplan ⊢
    rw [hplan]

/-- **The planned tokens of a file are its recorded tokens.** -/
theorem File.recorded_planned (file : File) :
    file.planned.map Plan.Leaf.recorded = file.recorded := by
  have hdecls := recordedAll_elementsFrom Decl.recorded_plan 0 file.decls
  have hname := file.name.recorded_plan Tag.unclassed_nil "Name"
  rw [recordedAll] at hdecls
  rw [Plan.recorded] at hname
  simp only [planned, File.recorded, List.map_cons, List.map_append, List.cons_append, hdecls, hname]
  rfl

end GoTree
