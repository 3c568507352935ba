import Mathlib.Tactic.Common
import GoTree.Syntax.Span
import GoTree.Tree.Entry

/-!
# Recorded tokens

The tokens a syntax tree records, each by its offset, its stored text and its class, in the order of
the source: this is all that a syntax tree says about the text it was read from.  Tokens without an
offset of their own are not among them.

## Main definitions

* `Token.Kind.tokenClass`: the class of a token by its kind
* `Recorded`: a token that a syntax tree records
* `Expr.recorded`, `Stmt.recorded`, `GenDecl.recorded`, `Decl.recorded`: the recorded tokens of a
  construct, in source order
* `Expr.exprs`, `Stmt.exprs`, `GenDecl.exprs`, `Decl.exprs`: every expression inside a construct

## Main results

* `Expr.stop_le`: an expression stops where one of its recorded tokens does, or before
-/

namespace GoTree

/-- The class of a literal; only strings have one of their own. -/
def Literal.tokenClass : Literal → TokenClass
  | .string => .stringLiteral
  | _ => .other

/-- **The class of a token,** by its kind. -/
def Token.Kind.tokenClass : Token.Kind → TokenClass
  | .keyword _ => .keyword
  | .literal l => l.tokenClass
  | _ => .other

/-- A token that a syntax tree records. -/
structure Recorded where
  pos : Offset
  text : String
  type : TokenClass
deriving DecidableEq, Repr

namespace Recorded

/-- A symbol at `pos`. -/
def symbol (pos : Offset) (s : Symbol) : Recorded :=
  ⟨pos, s.spelling, .other⟩

/-- A keyword at `pos`. -/
def keyword (pos : Offset) (word : Keyword) : Recorded :=
  ⟨pos, word.spelling, .keyword⟩

/-- A symbol at an offset that may be absent. -/
def symbol? (pos : Option Offset) (s : Symbol) : List Recorded :=
  (pos.map fun p => symbol p s).toList

/-- A keyword at an offset that may be absent. -/
def keyword? (pos : Option Offset) (word : Keyword) : List Recorded :=
  (pos.map fun p => keyword p word).toList

/-- A token whose class is forgotten. -/
def untyped (recorded : Recorded) : Recorded :=
  { recorded with type := .other }

/-- Where a token stops, as far as its stored text tells. -/
def stop (recorded : Recorded) : Offset :=
  recorded.pos + storedSize recorded.text

@[simp]
theorem symbol?_none (s : Symbol) : symbol? none s = [] := rfl

@[simp]
theorem symbol?_some (pos : Offset) (s : Symbol) : symbol? (some pos) s = [symbol pos s] := rfl

@[simp]
theorem keyword?_none (word : Keyword) : keyword? none word = [] := rfl

@[simp]
theorem keyword?_some (pos : Offset) (word : Keyword) :
    keyword? (some pos) word = [keyword pos word] := rfl

end Recorded

open Recorded

/-- A name. -/
def Ident.recorded (ident : Ident) : Recorded :=
  ⟨ident.pos, ident.name, .other⟩

/-- A literal. -/
def BasicLit.recorded (lit : BasicLit) : Recorded :=
  ⟨lit.pos, lit.value, lit.kind.tokenClass⟩

/-! ### Recorded tokens of constructs -/

mutual

/-- **The tokens an expression records**, in source order. -/
@[simp]
def Expr.recorded : Expr → List Recorded
  | .ident i => [i.recorded]
  | .basicLit lit => [lit.recorded]
  | .ellipsis pos elt => symbol pos .ellipsis :: Expr.recorded? elt
  | .funcLit ty body => keyword? ty.func .funcKw ++ ty.recorded ++ body.recorded
  | .compositeLit ty lbrace elts rbrace =>
    Expr.recorded? ty ++ symbol lbrace .leftBrace :: Expr.recordedAll elts ++
      [symbol rbrace .rightBrace]
  | .paren lparen x rparen =>
    symbol lparen .leftParen :: x.recorded ++ [symbol rparen .rightParen]
  | .selector x sel => x.recorded ++ [sel.recorded]
  | .index x lbrack i rbrack =>
    x.recorded ++ symbol lbrack .leftBracket :: i.recorded ++ [symbol rbrack .rightBracket]
  | .slice x lbrack low high max _ rbrack =>
    x.recorded ++ symbol lbrack .leftBracket :: Expr.recorded? low ++ Expr.recorded? high ++
      Expr.recorded? max ++ [symbol rbrack .rightBracket]
  | .typeAssert x lparen ty rparen =>
    x.recorded ++ symbol lparen .leftParen :: Expr.recorded? ty ++ [symbol rparen .rightParen]
  | .call callee lparen args dots rparen =>
    callee.recorded ++ symbol lparen .leftParen :: Expr.recordedAll args ++
      symbol? dots .ellipsis ++ [symbol rparen .rightParen]
  | .star pos x => symbol pos .star :: x.recorded
  | .unary opPos op x => symbol opPos op.symbol :: x.recorded
  | .binary x opPos op y => x.recorded ++ symbol opPos op.symbol :: y.recorded
  | .keyValue key colon value => key.recorded ++ symbol colon .colon :: value.recorded
  | .arrayType lbrack len elt =>
    symbol lbrack .leftBracket :: Expr.recorded? len ++ elt.recorded
  | .structType pos fields =>
    keyword pos .structKw :: fields.recorded .leftBrace .rightBrace
  | .funcType ty => keyword? ty.func .funcKw ++ ty.recorded
  | .interfaceType pos methods =>
    keyword pos .interfaceKw :: methods.recorded .leftBrace .rightBrace
  | .mapType pos key value => keyword pos .mapKw :: key.recorded ++ value.recorded
  | .chanType pos arrow dir value =>
    (match dir with
      | .receive => [symbol pos .arrow]
      | .send => keyword pos .chanKw :: symbol? arrow .arrow
      | .both => [keyword pos .chanKw]) ++ value.recorded

/-- The tokens of an expression that may be absent. -/
def Expr.recorded? : Option Expr → List Recorded
  | none => []
  | some e => e.recorded

/-- The tokens of several expressions. -/
def Expr.recordedAll : List Expr → List Recorded
  | [] => []
  | e :: rest => e.recorded ++ Expr.recordedAll rest

/-- The tokens of parameters and results. -/
def FuncType.recorded : FuncType → List Recorded
  | ⟨_, params, results⟩ =>
    params.recorded .leftParen .rightParen ++ FieldList.recordedResults results

/-- The tokens of results that may be absent. -/
def FieldList.recordedResults : Option FieldList → List Recorded
  | none => []
  | some results => results.recorded .leftParen .rightParen

/-- The tokens of fields between two brackets. -/
def FieldList.recorded (left right : Symbol) : FieldList → List Recorded
  | ⟨opening, list, closing⟩ =>
    symbol? opening left ++ Field.recordedAll list ++ symbol? closing right

/-- The tokens of several fields. -/
def Field.recordedAll : List Field → List Recorded
  | [] => []
  | f :: rest => f.recorded ++ Field.recordedAll rest

/-- The tokens of a field. -/
def Field.recorded : Field → List Recorded
  | ⟨names, ty, tag⟩ =>
    names.map Ident.recorded ++ ty.recorded ++ (tag.map BasicLit.recorded).toList

/-- The tokens of a block. -/
def Block.recorded : Block → List Recorded
  | ⟨lbrace, list, rbrace⟩ =>
    symbol lbrace .leftBrace :: Stmt.recordedAll list ++ [symbol rbrace .rightBrace]

/-- **The tokens a statement records**, in source order. -/
@[simp]
def Stmt.recorded : Stmt → List Recorded
  | .empty e => if e.implicit then [] else [symbol e.semicolon .semicolon]
  | .block b => b.recorded
  | .labeled label colon stmt => label.recorded :: symbol colon .colon :: stmt.recorded
  | .decl d => d.recorded
  | .expr x => x.recorded
  | .send chan arrow value => chan.recorded ++ symbol arrow .arrow :: value.recorded
  | .step x tokPos op => x.recorded ++ [symbol tokPos op.symbol]
  | .assign lhs tok rhs =>
    Expr.recordedAll lhs ++ symbol tok.pos tok.op.symbol :: Expr.recordedAll rhs
  | .goCall pos call => keyword pos .goKw :: call.recorded
  | .deferCall pos call => keyword pos .deferKw :: call.recorded
  | .returns pos results => keyword pos .returnKw :: Expr.recordedAll results
  | .branch tokPos kind label =>
    keyword tokPos kind.keyword :: (label.map Ident.recorded).toList
  | .ifThen pos init cond body orElse =>
    keyword pos .ifKw :: Stmt.recorded? init ++ cond.recorded ++ body.recorded ++
      Stmt.recorded? orElse
  | .switch pos init tag body =>
    keyword pos .switchKw :: Stmt.recorded? init ++ Expr.recorded? tag ++ body.recorded
  | .typeSwitch pos init guard body =>
    keyword pos .switchKw :: Stmt.recorded? init ++ guard.recorded ++ body.recorded
  | .select pos lbrace clauses rbrace =>
    keyword pos .selectKw :: symbol lbrace .leftBrace :: CommClause.recordedAll clauses ++
      [symbol rbrace .rightBrace]
  | .forLoop pos init cond post body =>
    keyword pos .forKw :: Stmt.recorded? init ++ Expr.recorded? cond ++ Stmt.recorded? post ++
      body.recorded
  | .rangeLoop pos key value tok x body =>
    keyword pos .forKw :: Expr.recorded? key ++ Expr.recorded? value ++
      (tok.map fun t => symbol t.pos t.op.symbol).toList ++ x.recorded ++ body.recorded

/-- The tokens of a statement that may be absent. -/
def Stmt.recorded? : Option Stmt → List Recorded
  | none => []
  | some s => s.recorded

/-- The tokens of several statements. -/
def Stmt.recordedAll : List Stmt → List Recorded
  | [] => []
  | s :: rest => s.recorded ++ Stmt.recordedAll rest

/-- The tokens of the clauses of a switch and their braces. -/
def CaseBlock.recorded : CaseBlock → List Recorded
  | ⟨lbrace, clauses, rbrace⟩ =>
    symbol lbrace .leftBrace :: CaseClause.recordedAll clauses ++ [symbol rbrace .rightBrace]

/-- The tokens of several clauses. -/
def CaseClause.recordedAll : List CaseClause → List Recorded
  | [] => []
  | clause :: rest => clause.recorded ++ CaseClause.recordedAll rest

/-- The tokens of a clause of a switch. -/
def CaseClause.recorded : CaseClause → List Recorded
  | ⟨pos, list, colon, body⟩ =>
    keyword pos (if list.isEmpty then .defaultKw else .caseKw) :: Expr.recordedAll list ++
      symbol colon .colon :: Stmt.recordedAll body

/-- The tokens of several clauses. -/
def CommClause.recordedAll : List CommClause → List Recorded
  | [] => []
  | clause :: rest => clause.recorded ++ CommClause.recordedAll rest

/-- The tokens of a clause of a select. -/
def CommClause.recorded : CommClause → List Recorded
  | ⟨pos, comm, colon, body⟩ =>
    keyword pos (if comm.isSome then .caseKw else .defaultKw) :: Stmt.recorded? comm ++
      symbol colon .colon :: Stmt.recordedAll body

/-- **The tokens a general declaration records**, in source order. -/
def GenDecl.recorded : GenDecl → List Recorded
  | ⟨tokPos, kind, lparen, specs, rparen⟩ =>
    keyword tokPos kind.keyword :: symbol? lparen .leftParen ++ Spec.recordedAll specs ++
      symbol? rparen .rightParen

/-- The tokens of several specifications. -/
def Spec.recordedAll : List Spec → List Recorded
  | [] => []
  | spec :: rest => spec.recorded ++ Spec.recordedAll rest

/-- The tokens of a specification. -/
def Spec.recorded : Spec → List Recorded
  | .imported name path => (name.map Ident.recorded).toList ++ [path.recorded]
  | .value names ty values =>
    names.map Ident.recorded ++ Expr.recorded? ty ++ Expr.recordedAll values
  | .type name assign ty => name.recorded :: symbol? assign .assign ++ ty.recorded

end

/-- The tokens of a function declaration. -/
def FuncDecl.recorded (decl : FuncDecl) : List Recorded :=
  keyword decl.func .funcKw ::
    ((decl.recv.map (FieldList.recorded .leftParen .rightParen)).getD [] ++
      decl.name.recorded :: decl.ty.recorded ++ (decl.body.map Block.recorded).getD [])

/-- **The tokens a declaration records**, in source order. -/
def Decl.recorded : Decl → List Recorded
  | .gen d => d.recorded
  | .func d => d.recorded

/-- **The tokens a file records**, in source order. -/
def File.recorded (file : File) : List Recorded :=
  keyword file.package .packageKw :: file.name.recorded :: file.decls.flatMap Decl.recorded

/-! ### Expressions inside constructs -/

mutual

/-- **An expression and every expression inside it.** -/
@[simp]
def Expr.exprs : Expr → List Expr
  | .ident i => [.ident i]
  | .basicLit lit => [.basicLit lit]
  | .ellipsis pos elt => .ellipsis pos elt :: Expr.exprs? elt
  | .funcLit ty body => .funcLit ty body :: ty.exprs ++ body.exprs
  | .compositeLit ty lbrace elts rbrace =>
    .compositeLit ty lbrace elts rbrace :: Expr.exprs? ty ++ Expr.exprsAll elts
  | .paren lparen x rparen => .paren lparen x rparen :: x.exprs
  | .selector x sel => .selector x sel :: x.exprs
  | .index x lbrack i rbrack => .index x lbrack i rbrack :: x.exprs ++ i.exprs
  | .slice x lbrack low high max slice3 rbrack =>
    .slice x lbrack low high max slice3 rbrack :: x.exprs ++ Expr.exprs? low ++
      Expr.exprs? high ++ Expr.exprs? max
  | .typeAssert x lparen ty rparen => .typeAssert x lparen ty rparen :: x.exprs ++ Expr.exprs? ty
  | .call callee lparen args dots rparen =>
    .call callee lparen args dots rparen :: callee.exprs ++ Expr.exprsAll args
  | .star pos x => .star pos x :: x.exprs
  | .unary opPos op x => .unary opPos op x :: x.exprs
  | .binary x opPos op y => .binary x opPos op y :: x.exprs ++ y.exprs
  | .keyValue key colon value => .keyValue key colon value :: key.exprs ++ value.exprs
  | .arrayType lbrack len elt => .arrayType lbrack len elt :: Expr.exprs? len ++ elt.exprs
  | .structType pos fields => .structType pos fields :: fields.exprs
  | .funcType ty => .funcType ty :: ty.exprs
  | .interfaceType pos methods => .interfaceType pos methods :: methods.exprs
  | .mapType pos key value => .mapType pos key value :: key.exprs ++ value.exprs
  | .chanType pos arrow dir value => .chanType pos arrow dir value :: value.exprs

/-- The expressions of one that may be absent. -/
def Expr.exprs? : Option Expr → List Expr
  | none => []
  | some e => e.exprs

/-- The expressions inside several. -/
def Expr.exprsAll : List Expr → List Expr
  | [] => []
  | e :: rest => e.exprs ++ Expr.exprsAll rest

/-- The expressions of parameters and results. -/
def FuncType.exprs : FuncType → List Expr
  | ⟨_, params, results⟩ => params.exprs ++ FieldList.exprs? results

/-- The expressions of fields that may be absent. -/
def FieldList.exprs? : Option FieldList → List Expr
  | none => []
  | some list => list.exprs

/-- The expressions of fields. -/
def FieldList.exprs : FieldList → List Expr
  | ⟨_, list, _⟩ => Field.exprsAll list

/-- The expressions of several fields. -/
def Field.exprsAll : List Field → List Expr
  | [] => []
  | f :: rest => f.exprs ++ Field.exprsAll rest

/-- The expressions of a field: those of its type. -/
def Field.exprs : Field → List Expr
  | ⟨_, ty, _⟩ => ty.exprs

/-- The expressions of a block. -/
def Block.exprs : Block → List Expr
  | ⟨_, list, _⟩ => Stmt.exprsAll list

/-- **Every expression inside a statement.** -/
@[simp]
def Stmt.exprs : Stmt → List Expr
  | .empty _ => []
  | .block b => b.exprs
  | .labeled _ _ stmt => stmt.exprs
  | .decl d => d.exprs
  | .expr x => x.exprs
  | .send chan _ value => chan.exprs ++ value.exprs
  | .step x _ _ => x.exprs
  | .assign lhs _ rhs => Expr.exprsAll lhs ++ Expr.exprsAll rhs
  | .goCall _ call => call.exprs
  | .deferCall _ call => call.exprs
  | .returns _ results => Expr.exprsAll results
  | .branch _ _ _ => []
  | .ifThen _ init cond body orElse =>
    Stmt.exprs? init ++ cond.exprs ++ body.exprs ++ Stmt.exprs? orElse
  | .switch _ init tag body => Stmt.exprs? init ++ Expr.exprs? tag ++ body.exprs
  | .typeSwitch _ init guard body => Stmt.exprs? init ++ guard.exprs ++ body.exprs
  | .select _ _ clauses _ => CommClause.exprsAll clauses
  | .forLoop _ init cond post body =>
    Stmt.exprs? init ++ Expr.exprs? cond ++ Stmt.exprs? post ++ body.exprs
  | .rangeLoop _ key value _ x body =>
    Expr.exprs? key ++ Expr.exprs? value ++ x.exprs ++ body.exprs

/-- The expressions of a statement that may be absent. -/
def Stmt.exprs? : Option Stmt → List Expr
  | none => []
  | some s => s.exprs

/-- The expressions of several statements. -/
def Stmt.exprsAll : List Stmt → List Expr
  | [] => []
  | s :: rest => s.exprs ++ Stmt.exprsAll rest

/-- The expressions of the clauses of a switch. -/
def CaseBlock.exprs : CaseBlock → List Expr
  | ⟨_, clauses, _⟩ => CaseClause.exprsAll clauses

/-- The expressions of several clauses. -/
def CaseClause.exprsAll : List CaseClause → List Expr
  | [] => []
  | clause :: rest => clause.exprs ++ CaseClause.exprsAll rest

/-- The expressions of a clause of a switch. -/
def CaseClause.exprs : CaseClause → List Expr
  | ⟨_, list, _, body⟩ => Expr.exprsAll list ++ Stmt.exprsAll body

/-- The expressions of several clauses. -/
def CommClause.exprsAll : List CommClause → List Expr
  | [] => []
  | clause :: rest => clause.exprs ++ CommClause.exprsAll rest

/-- The expressions of a clause of a select. -/
def CommClause.exprs : CommClause → List Expr
  | ⟨_, comm, _, body⟩ => Stmt.exprs? comm ++ Stmt.exprsAll body

/-- **Every expression inside a general declaration.** -/
def GenDecl.exprs : GenDecl → List Expr
  | ⟨_, _, _, specs, _⟩ => Spec.exprsAll specs

/-- The expressions of several specifications. -/
def Spec.exprsAll : List Spec → List Expr
  | [] => []
  | spec :: rest => spec.exprs ++ Spec.exprsAll rest

/-- The expressions of a specification. -/
def Spec.exprs : Spec → List Expr
  | .imported _ _ => []
  | .value _ ty values => Expr.exprs? ty ++ Expr.exprsAll values
  | .type _ _ ty => ty.exprs

end

/-- **Every expression inside a declaration.** -/
def Decl.exprs : Decl → List Expr
  | .gen d => d.exprs
  | .func d =>
    FieldList.exprs? d.recv ++ d.ty.exprs ++ (d.body.map Block.exprs).getD []

/-- **Every expression of a file.** -/
def File.exprs (file : File) : List Expr :=
  file.decls.flatMap Decl.exprs

/-! ### Lists of constructs -/

@[simp]
theorem Expr.recordedAll_eq (list : List Expr) : Expr.recordedAll list = list.flatMap recorded := by
  induction list with
  | nil => rfl
  | cons e list ih => simp [Expr.recordedAll, ih]

@[simp]
theorem Expr.exprsAll_eq (list : List Expr) : Expr.exprsAll list = list.flatMap exprs := by
  induction list with
  | nil => rfl
  | cons e list ih => simp [Expr.exprsAll, ih]

@[simp]
theorem Field.recordedAll_eq (list : List Field) :
    Field.recordedAll list = list.flatMap recorded := by
  induction list with
  | nil => rfl
  | cons f list ih => simp [Field.recordedAll, ih]

@[simp]
theorem Field.exprsAll_eq (list : List Field) : Field.exprsAll list = list.flatMap exprs := by
  induction list with
  | nil => rfl
  | cons f list ih => simp [Field.exprsAll, ih]

@[simp]
theorem Stmt.recordedAll_eq (list : List Stmt) : Stmt.recordedAll list = list.flatMap recorded := by
  induction list with
  | nil => rfl
  | cons s list ih => simp [Stmt.recordedAll, ih]

@[simp]
theorem Stmt.exprsAll_eq (list : List Stmt) : Stmt.exprsAll list = list.flatMap exprs := by
  induction list with
  | nil => rfl
  | cons s list ih => simp [Stmt.exprsAll, ih]

@[simp]
theorem CaseClause.recordedAll_eq (list : List CaseClause) :
    CaseClause.recordedAll list = list.flatMap recorded := by
  induction list with
  | nil => rfl
  | cons clause list ih => simp [CaseClause.recordedAll, ih]

@[simp]
theorem CaseClause.exprsAll_eq (list : List CaseClause) :
    CaseClause.exprsAll list = list.flatMap exprs := by
  induction list with
  | nil => rfl
  | cons clause list ih => simp [CaseClause.exprsAll, ih]

@[simp]
theorem CommClause.recordedAll_eq (list : List CommClause) :
    CommClause.recordedAll list = list.flatMap recorded := by
  induction list with
  | nil => rfl
  | cons clause list ih => simp [CommClause.recordedAll, ih]

@[simp]
theorem CommClause.exprsAll_eq (list : List CommClause) :
    CommClause.exprsAll list = list.flatMap exprs := by
  induction list with
  | nil => rfl
  | cons clause list ih => simp [CommClause.exprsAll, ih]

@[simp]
theorem Spec.recordedAll_eq (list : List Spec) : Spec.recordedAll list = list.flatMap recorded := by
  induction list with
  | nil => rfl
  | cons spec list ih => simp [Spec.recordedAll, ih]

@[simp]
theorem Spec.exprsAll_eq (list : List Spec) : Spec.exprsAll list = list.flatMap exprs := by
  induction list with
  | nil => rfl
  | cons spec list ih => simp [Spec.exprsAll, ih]

/-! ### Where expressions stop -/

namespace Recorded

/-- Every symbol has characters. -/
theorem succ_le_stop (pos : Offset) (s : Symbol) : pos + 1 ≤ (symbol pos s).stop := by
  have hpos : 0 < storedSize s.spelling := by cases s <;> decide +kernel
  exact Nat.add_le_add_left hpos pos

@[simp]
theorem pos_symbol (pos : Offset) (s : Symbol) : (symbol pos s).pos = pos := rfl

@[simp]
theorem pos_keyword (pos : Offset) (word : Keyword) : (keyword pos word).pos = pos := rfl

@[simp]
theorem stop_keyword (pos : Offset) (word : Keyword) :
    (keyword pos word).stop = pos + storedSize word.spelling := rfl

/-- The symbols that close a construct are one byte long. -/
@[simp]
theorem stop_rightParen (pos : Offset) : (symbol pos .rightParen).stop = pos + 1 :=
  congrArg (pos + ·) (by decide +kernel : storedSize Symbol.rightParen.spelling = 1)

@[simp]
theorem stop_rightBracket (pos : Offset) : (symbol pos .rightBracket).stop = pos + 1 :=
  congrArg (pos + ·) (by decide +kernel : storedSize Symbol.rightBracket.spelling = 1)

@[simp]
theorem stop_rightBrace (pos : Offset) : (symbol pos .rightBrace).stop = pos + 1 :=
  congrArg (pos + ·) (by decide +kernel : storedSize Symbol.rightBrace.spelling = 1)

@[simp]
theorem stop_semicolon (pos : Offset) : (symbol pos .semicolon).stop = pos + 1 :=
  congrArg (pos + ·) (by decide +kernel : storedSize Symbol.semicolon.spelling = 1)

@[simp]
theorem stop_colon (pos : Offset) : (symbol pos .colon).stop = pos + 1 :=
  congrArg (pos + ·) (by decide +kernel : storedSize Symbol.colon.spelling = 1)

@[simp]
theorem stop_step (pos : Offset) (op : StepOp) : (symbol pos op.symbol).stop = pos + 2 := by
  have hsize : storedSize op.symbol.spelling = 2 := by cases op <;> decide +kernel
  exact congrArg (pos + ·) hsize

@[simp]
theorem stop_ellipsis (pos : Offset) : (symbol pos .ellipsis).stop = pos + 3 := by
  have hsize : storedSize Symbol.ellipsis.spelling = 3 := by decide +kernel
  exact congrArg (pos + ·) hsize

theorem pos_le_stop (recorded : Recorded) : recorded.pos ≤ recorded.stop :=
  Nat.le_add_right ..

end Recorded

mutual

/-- **An expression stops by where its recorded tokens do.** -/
theorem Expr.stop_le {n : Nat} : (e : Expr) → (∀ r ∈ e.recorded, r.stop ≤ n) → e.stop ≤ n
  | .ident i, h => h i.recorded (by simp)
  | .basicLit lit, h => h lit.recorded (by simp)
  | .ellipsis pos none, h =>
    Nat.le_trans (Nat.le_of_eq (stop_ellipsis pos).symm) (h _ (by simp))
  | .ellipsis pos (some elt), h =>
    elt.stop_le fun r hr => h r (by simp [Expr.recorded?, hr])
  | .funcLit _ ⟨_, _, rbrace⟩, h =>
    Nat.le_trans (succ_le_stop rbrace .rightBrace) (h _ (by simp [Block.recorded]))
  | .compositeLit _ _ _ rbrace, h =>
    Nat.le_trans (succ_le_stop rbrace .rightBrace) (h _ (by simp))
  | .paren _ _ rparen, h =>
    Nat.le_trans (succ_le_stop rparen .rightParen) (h _ (by simp))
  | .selector _ sel, h => h sel.recorded (by simp)
  | .index _ _ _ rbrack, h =>
    Nat.le_trans (succ_le_stop rbrack .rightBracket) (h _ (by simp))
  | .slice _ _ _ _ _ _ rbrack, h =>
    Nat.le_trans (succ_le_stop rbrack .rightBracket) (h _ (by simp))
  | .typeAssert _ _ _ rparen, h =>
    Nat.le_trans (succ_le_stop rparen .rightParen) (h _ (by simp))
  | .call _ _ _ _ rparen, h =>
    Nat.le_trans (succ_le_stop rparen .rightParen) (h _ (by simp))
  | .star _ x, h => x.stop_le fun r hr => h r (by simp [hr])
  | .unary _ _ x, h => x.stop_le fun r hr => h r (by simp [hr])
  | .binary _ _ _ y, h => y.stop_le fun r hr => h r (by simp [hr])
  | .keyValue _ _ value, h => value.stop_le fun r hr => h r (by simp [hr])
  | .arrayType _ _ elt, h => elt.stop_le fun r hr => h r (by simp [hr])
  | .structType pos fields, h => by
    -- without a closing brace the type is as long as its keyword
    have hpos : pos ≤ n :=
      Nat.le_trans (pos_le_stop (keyword pos .structKw)) (h _ (by simp))
    have hfields := fields.stop?_le .leftBrace .rightBrace
      fun r hr => h r (by simp [hr])
    cases hstop : fields.stop? with
    | none => simpa [Expr.stop, hstop] using hpos
    | some stop => simpa [Expr.stop, hstop] using hfields stop hstop
  | .funcType ty, h => ty.stop_le fun r hr => h r (by simp [hr])
  | .interfaceType pos methods, h => by
    have hpos : pos ≤ n :=
      Nat.le_trans (pos_le_stop (keyword pos .interfaceKw)) (h _ (by simp))
    have hmethods := methods.stop?_le .leftBrace .rightBrace
      fun r hr => h r (by simp [hr])
    cases hstop : methods.stop? with
    | none => simpa [Expr.stop, hstop] using hpos
    | some stop => simpa [Expr.stop, hstop] using hmethods stop hstop
  | .mapType _ _ value, h => value.stop_le fun r hr => h r (by simp [hr])
  | .chanType _ _ _ value, h => value.stop_le fun r hr => h r (by simp [hr])

theorem FuncType.stop_le {n : Nat} :
    (ty : FuncType) → (∀ r ∈ ty.recorded, r.stop ≤ n) → ty.stop ≤ n
  | ⟨_, params, none⟩, h => by
    have hparams := params.stop?_le .leftParen .rightParen
      fun r hr => h r (by simp [FuncType.recorded, hr])
    cases hstop : params.stop? with
    | none => simp [FuncType.stop, hstop]
    | some stop => simpa [FuncType.stop, hstop] using hparams stop hstop
  | ⟨_, params, some results⟩, h => by
    have hparams := params.stop?_le .leftParen .rightParen
      fun r hr => h r (by simp [FuncType.recorded, hr])
    have hresults := results.stop?_le .leftParen .rightParen
      fun r hr => h r (by simp [FuncType.recorded, FieldList.recordedResults, hr])
    cases hstop : results.stop? with
    | some stop => simpa [FuncType.stop, hstop] using hresults stop hstop
    | none =>
      cases hstop' : params.stop? with
      | none => simp [FuncType.stop, hstop, hstop']
      | some stop => simpa [FuncType.stop, hstop, hstop'] using hparams stop hstop'

theorem FieldList.stop?_le {n : Nat} (left right : Symbol) :
    (list : FieldList) → (∀ r ∈ list.recorded left right, r.stop ≤ n) →
      ∀ stop ∈ list.stop?, stop ≤ n
  | ⟨_, _, some closing⟩, h => by
    have hclosing := h (symbol closing right) (by simp [FieldList.recorded])
    simpa [FieldList.stop?] using Nat.le_trans (succ_le_stop closing right) hclosing
  | ⟨_, list, none⟩, h =>
    Field.lastStop?_le list fun f hf r hr => h r <| by
      simp only [FieldList.recorded, Field.recordedAll_eq, List.mem_append, List.mem_flatMap]
      exact .inl (.inr ⟨f, hf, hr⟩)

theorem Field.lastStop?_le {n : Nat} :
    (list : List Field) → (∀ f ∈ list, ∀ r ∈ f.recorded, r.stop ≤ n) →
      ∀ stop ∈ Field.lastStop? list, stop ≤ n
  | [], _ => by simp [Field.lastStop?]
  | field :: rest, h => by
    have hfield := field.stop_le fun r hr => h field (by simp) r hr
    have hrest := Field.lastStop?_le rest fun f hf r hr => h f (by simp [hf]) r hr
    cases hstop : Field.lastStop? rest with
    | none => simpa [Field.lastStop?, hstop] using hfield
    | some stop => simpa [Field.lastStop?, hstop] using hrest stop hstop

theorem Field.stop_le {n : Nat} :
    (f : Field) → (∀ r ∈ f.recorded, r.stop ≤ n) → f.stop ≤ n
  | ⟨_, _, some tag⟩, h => h tag.recorded (by simp [Field.recorded])
  | ⟨_, ty, none⟩, h => ty.stop_le fun r hr => h r (by simp [Field.recorded, hr])

end

end GoTree
