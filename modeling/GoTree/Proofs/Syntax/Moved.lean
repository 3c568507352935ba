import Mathlib.Tactic.Common
import GoTree.Syntax.Basic

/-!
# Moved syntax trees

A syntax tree with all its offsets moved, while its shape, its names and its literals stay.

## Main definitions

* `Ident.move`, `BasicLit.move`: the leaves
* `Expr.move`, `Stmt.move`, `GenDecl.move` and their companions: the mutually recursive constructs
* `FuncDecl.move`, `Decl.move`: declarations
* `File.Moved`: files whose package clause and declarations are moved

## Main results

* `Expr.moveAll_eq`, `Expr.move?_eq` and their companions: lists and options are moved member by
  member
-/

namespace GoTree

variable (f : Offset → Offset)

/-! ### The constructs -/

/-- A name with its offset moved. -/
def Ident.move (ident : Ident) : Ident :=
  ⟨f ident.pos, ident.name⟩

/-- A literal with its offset moved. -/
def BasicLit.move (lit : BasicLit) : BasicLit :=
  ⟨f lit.pos, lit.kind, lit.value⟩

/-- An empty statement with its offset moved. -/
def EmptyStmt.move (empty : EmptyStmt) : EmptyStmt :=
  ⟨f empty.semicolon, empty.implicit⟩

/-- A comment with its offset moved. -/
def Comment.move (comment : Comment) : Comment :=
  ⟨f comment.slash, comment.text⟩

/-- An assignment operator with its offset moved. -/
def AssignTok.move (tok : AssignTok) : AssignTok :=
  ⟨f tok.pos, tok.op⟩

mutual

/-- **An expression with its offsets moved.** -/
def Expr.move : Expr → Expr
  | .ident i => .ident (i.move f)
  | .basicLit lit => .basicLit (lit.move f)
  | .ellipsis pos elt => .ellipsis (f pos) (Expr.move? elt)
  | .funcLit ty body => .funcLit (FuncType.move ty) (Block.move body)
  | .compositeLit ty lbrace elts rbrace =>
    .compositeLit (Expr.move? ty) (f lbrace) (Expr.moveAll elts) (f rbrace)
  | .paren lparen x rparen => .paren (f lparen) (Expr.move x) (f rparen)
  | .selector x sel => .selector (Expr.move x) (sel.move f)
  | .index x lbrack i rbrack => .index (Expr.move x) (f lbrack) (Expr.move i) (f rbrack)
  | .slice x lbrack low high max slice3 rbrack =>
    .slice (Expr.move x) (f lbrack) (Expr.move? low) (Expr.move? high) (Expr.move? max) slice3
      (f rbrack)
  | .typeAssert x lparen ty rparen =>
    .typeAssert (Expr.move x) (f lparen) (Expr.move? ty) (f rparen)
  | .call callee lparen args ellipsis rparen =>
    .call (Expr.move callee) (f lparen) (Expr.moveAll args) (ellipsis.map f) (f rparen)
  | .star pos x => .star (f pos) (Expr.move x)
  | .unary opPos op x => .unary (f opPos) op (Expr.move x)
  | .binary x opPos op y => .binary (Expr.move x) (f opPos) op (Expr.move y)
  | .keyValue key colon value => .keyValue (Expr.move key) (f colon) (Expr.move value)
  | .arrayType lbrack len elt => .arrayType (f lbrack) (Expr.move? len) (Expr.move elt)
  | .structType pos fields => .structType (f pos) (FieldList.move fields)
  | .funcType ty => .funcType (FuncType.move ty)
  | .interfaceType pos methods => .interfaceType (f pos) (FieldList.move methods)
  | .mapType pos key value => .mapType (f pos) (Expr.move key) (Expr.move value)
  | .chanType pos arrow dir value => .chanType (f pos) (arrow.map f) dir (Expr.move value)

/-- An expression that may be absent. -/
def Expr.move? : Option Expr → Option Expr
  | none => none
  | some e => some (Expr.move e)

/-- The expressions of a list. -/
def Expr.moveAll : List Expr → List Expr
  | [] => []
  | e :: rest => Expr.move e :: Expr.moveAll rest

/-- A function type with its offsets moved. -/
def FuncType.move : FuncType → FuncType
  | ⟨func, params, results⟩ => ⟨func.map f, FieldList.move params, FieldList.move? results⟩

/-- A list of fields that may be absent. -/
def FieldList.move? : Option FieldList → Option FieldList
  | none => none
  | some fields => some (FieldList.move fields)

/-- A list of fields with its offsets moved. -/
def FieldList.move : FieldList → FieldList
  | ⟨opening, list, closing⟩ => ⟨opening.map f, Field.moveAll list, closing.map f⟩

/-- The fields of a list. -/
def Field.moveAll : List Field → List Field
  | [] => []
  | field :: rest => Field.move field :: Field.moveAll rest

/-- A field with its offsets moved. -/
def Field.move : Field → Field
  | ⟨names, ty, tag⟩ => ⟨names.map (Ident.move f), Expr.move ty, tag.map (BasicLit.move f)⟩

/-- A block with its offsets moved. -/
def Block.move : Block → Block
  | ⟨lbrace, list, rbrace⟩ => ⟨f lbrace, Stmt.moveAll list, f rbrace⟩

/-- **A statement with its offsets moved.** -/
def Stmt.move : Stmt → Stmt
  | .decl d => .decl (GenDecl.move d)
  | .empty e => .empty (e.move f)
  | .labeled label colon stmt => .labeled (label.move f) (f colon) (Stmt.move stmt)
  | .expr x => .expr (Expr.move x)
  | .send chan arrow value => .send (Expr.move chan) (f arrow) (Expr.move value)
  | .step x tokPos op => .step (Expr.move x) (f tokPos) op
  | .assign lhs tok rhs => .assign (Expr.moveAll lhs) (tok.move f) (Expr.moveAll rhs)
  | .goCall pos call => .goCall (f pos) (Expr.move call)
  | .deferCall pos call => .deferCall (f pos) (Expr.move call)
  | .returns pos results => .returns (f pos) (Expr.moveAll results)
  | .branch tokPos kind label => .branch (f tokPos) kind (label.map (Ident.move f))
  | .block b => .block (Block.move b)
  | .ifThen pos init cond body orElse =>
    .ifThen (f pos) (Stmt.move? init) (Expr.move cond) (Block.move body) (Stmt.move? orElse)
  | .switch pos init tag body =>
    .switch (f pos) (Stmt.move? init) (Expr.move? tag) (CaseBlock.move body)
  | .typeSwitch pos init guard body =>
    .typeSwitch (f pos) (Stmt.move? init) (Stmt.move guard) (CaseBlock.move body)
  | .select pos lbrace clauses rbrace =>
    .select (f pos) (f lbrace) (CommClause.moveAll clauses) (f rbrace)
  | .forLoop pos init cond post body =>
    .forLoop (f pos) (Stmt.move? init) (Expr.move? cond) (Stmt.move? post) (Block.move body)
  | .rangeLoop pos key value tok x body =>
    .rangeLoop (f pos) (Expr.move? key) (Expr.move? value) (tok.map (AssignTok.move f))
      (Expr.move x) (Block.move body)

/-- A statement that may be absent. -/
def Stmt.move? : Option Stmt → Option Stmt
  | none => none
  | some s => some (Stmt.move s)

/-- The statements of a list. -/
def Stmt.moveAll : List Stmt → List Stmt
  | [] => []
  | s :: rest => Stmt.move s :: Stmt.moveAll rest

/-- The clauses of a switch with their offsets moved. -/
def CaseBlock.move : CaseBlock → CaseBlock
  | ⟨lbrace, clauses, rbrace⟩ => ⟨f lbrace, CaseClause.moveAll clauses, f rbrace⟩

/-- The clauses of a list. -/
def CaseClause.moveAll : List CaseClause → List CaseClause
  | [] => []
  | clause :: rest => CaseClause.move clause :: CaseClause.moveAll rest

/-- A clause of a switch with its offsets moved. -/
def CaseClause.move : CaseClause → CaseClause
  | ⟨pos, list, colon, body⟩ => ⟨f pos, Expr.moveAll list, f colon, Stmt.moveAll body⟩

/-- The clauses of a list. -/
def CommClause.moveAll : List CommClause → List CommClause
  | [] => []
  | clause :: rest => CommClause.move clause :: CommClause.moveAll rest

/-- A clause of a select with its offsets moved. -/
def CommClause.move : CommClause → CommClause
  | ⟨pos, comm, colon, body⟩ => ⟨f pos, Stmt.move? comm, f colon, Stmt.moveAll body⟩

/-- **A general declaration with its offsets moved.** -/
def GenDecl.move : GenDecl → GenDecl
  | ⟨tokPos, kind, lparen, specs, rparen⟩ =>
    ⟨f tokPos, kind, lparen.map f, Spec.moveAll specs, rparen.map f⟩

/-- The specifications of a list. -/
def Spec.moveAll : List Spec → List Spec
  | [] => []
  | spec :: rest => Spec.move spec :: Spec.moveAll rest

/-- A specification with its offsets moved. -/
def Spec.move : Spec → Spec
  | .imported name path => .imported (name.map (Ident.move f)) (path.move f)
  | .value names ty values =>
    .value (names.map (Ident.move f)) (Expr.move? ty) (Expr.moveAll values)
  | .type name assign ty => .type (name.move f) (assign.map f) (Expr.move ty)

end

/-- A function declaration with its offsets moved. -/
def FuncDecl.move (decl : FuncDecl) : FuncDecl :=
  ⟨f decl.func, decl.recv.map (FieldList.move f), decl.name.move f, decl.ty.move f,
    decl.body.map (Block.move f)⟩

/-- A top-level declaration with its offsets moved. -/
def Decl.move : Decl → Decl
  | .gen decl => .gen (decl.move f)
  | .func decl => .func (decl.move f)

/-- **A file with its offsets moved**, its comments and its size apart. -/
structure File.Moved (file file' : File) : Prop where
  package : file'.package = f file.package
  name : file'.name = file.name.move f
  decls : file'.decls = file.decls.map (Decl.move f)

/-! ### Members -/

variable {f}

@[simp]
theorem Expr.move?_eq (e : Option Expr) : Expr.move? f e = e.map (Expr.move f) := by
  cases e <;> rfl

@[simp]
theorem FieldList.move?_eq (fields : Option FieldList) :
    FieldList.move? f fields = fields.map (FieldList.move f) := by
  cases fields <;> rfl

@[simp]
theorem Stmt.move?_eq (s : Option Stmt) : Stmt.move? f s = s.map (Stmt.move f) := by
  cases s <;> rfl

@[simp]
theorem Expr.moveAll_eq (list : List Expr) : Expr.moveAll f list = list.map (Expr.move f) := by
  induction list with
  | nil => rfl
  | cons e list ih => rw [Expr.moveAll, ih, List.map_cons]

@[simp]
theorem Field.moveAll_eq (list : List Field) : Field.moveAll f list = list.map (Field.move f) := by
  induction list with
  | nil => rfl
  | cons field list ih => rw [Field.moveAll, ih, List.map_cons]

@[simp]
theorem Stmt.moveAll_eq (list : List Stmt) : Stmt.moveAll f list = list.map (Stmt.move f) := by
  induction list with
  | nil => rfl
  | cons s list ih => rw [Stmt.moveAll, ih, List.map_cons]

@[simp]
theorem CaseClause.moveAll_eq (list : List CaseClause) :
    CaseClause.moveAll f list = list.map (CaseClause.move f) := by
  induction list with
  | nil => rfl
  | cons clause list ih => rw [CaseClause.moveAll, ih, List.map_cons]

@[simp]
theorem CommClause.moveAll_eq (list : List CommClause) :
    CommClause.moveAll f list = list.map (CommClause.move f) := by
  induction list with
  | nil => rfl
  | cons clause list ih => rw [CommClause.moveAll, ih, List.map_cons]

@[simp]
theorem Spec.moveAll_eq (list : List Spec) : Spec.moveAll f list = list.map (Spec.move f) := by
  induction list with
  | nil => rfl
  | cons spec list ih => rw [Spec.moveAll, ih, List.map_cons]

/-- Moving an expression keeps the parentheses around it. -/
@[simp]
theorem Expr.unparen_move : (e : Expr) → (e.move f).unparen = e.unparen.move f
  | .paren lparen x rparen => by
    rw [Expr.move, Expr.unparen, Expr.unparen, Expr.unparen_move x]
  | .ident _ | .basicLit _ | .ellipsis _ _ | .funcLit _ _ | .compositeLit _ _ _ _ | .selector _ _
  | .index _ _ _ _ | .slice _ _ _ _ _ _ _ | .typeAssert _ _ _ _ | .call _ _ _ _ _ | .star _ _
  | .unary _ _ _ | .binary _ _ _ _ | .keyValue _ _ _ | .arrayType _ _ _ | .structType _ _
  | .funcType _ | .interfaceType _ _ | .mapType _ _ _ | .chanType _ _ _ _ => by
    simp [Expr.move, Expr.unparen]

end GoTree
