import GoTree.Grammar.Run
import GoTree.Proofs.Grammar.Moved

/-!
# The grammar reads moved tokens alike

Every rule of the grammar reads the moved construct from moved tokens.  No rule looks at an offset:
where one depends on what it has read before, it depends on the shape of that only.  So a text with
carriage returns is read exactly when the text is, as the same file with its offsets moved.

## Main definitions

* `Grammar.Moves`: the recursive rules read moved constructs

## Main results

* `Grammar.moves_run`: they do, under every bound on their nesting
* `parse_withReturns`: the file read from a text with carriage returns
-/

namespace GoTree

open GoTree.Parser

variable {f : Offset → Offset} {g : Grammar}

/-- **The recursive rules read moved constructs** from moved tokens. -/
structure Grammar.Moves (f : Offset → Offset) (g : Grammar) : Prop where
  expr (least : Nat) : Parser.Moves f (Expr.move f) (g (.expr least)) (g (.expr least))
  unary : Parser.Moves f (Expr.move f) (g .unary) (g .unary)
  type : Parser.Moves f (Option.map (Expr.move f)) (g .type) (g .type)
  literal (ty : Option Expr) :
    Parser.Moves f (Expr.move f) (g (.literal ty)) (g (.literal (ty.map (Expr.move f))))
  stmt : Parser.Moves f (Stmt.move f) (g .stmt) (g .stmt)
  ifThen : Parser.Moves f (Stmt.move f) (g .ifThen) (g .ifThen)

namespace Grammar

/-! ### Types -/

theorem moves_expr (hg : g.Moves f) : Parser.Moves f (Expr.move f) g.expr g.expr :=
  hg.expr 1

theorem moves_exprList (hg : g.Moves f) :
    Parser.Moves f (List.map (Expr.move f)) g.exprList g.exprList :=
  moves_commaList (moves_expr hg)

theorem moves_someType (hg : g.Moves f) : Parser.Moves f (Expr.move f) g.someType g.someType := by
  refine hg.type.bind fun ty => ?_
  cases ty with
  | none => exact moves_failExpected _
  | some ty => exact .pure rfl

theorem moves_typeName : Parser.Moves f (Expr.move f) typeName typeName := by
  refine moves_ident.bind fun name => ?_
  have hplain : Parser.Moves f (Expr.move f) (pure (.ident name)) (pure (.ident (name.move f))) :=
    .pure rfl
  refine moves_isAt (moves_peekSecond fun second => ?_) (moves_peekSecond fun _ => hplain)
  split
  · refine moves_next fun _ _ _ => moves_ident.bind fun sel => .pure ?_
    simp [Expr.move]
  · exact hplain

theorem moves_arrayLength (hg : g.Moves f) :
    Parser.Moves f (Option.map (Expr.move f)) (arrayType.arrayLength g)
      (arrayType.arrayLength g) := by
  refine moves_peekKind fun kind => ?_
  split
  · exact .pure rfl
  · exact moves_nextPos.bind fun pos => .pure (by simp [Expr.move])
  · exact (moves_nested (moves_expr hg)).bind fun len => .pure rfl

theorem moves_arrayType (hg : g.Moves f) :
    Parser.Moves f (Expr.move f) g.arrayType g.arrayType := by
  refine (moves_expect _).bind fun lbrack => (moves_arrayLength hg).bind fun len => ?_
  refine (moves_expect _).bind fun _ => (moves_someType hg).bind fun elt => .pure ?_
  simp [Expr.move]

theorem moves_mapType (hg : g.Moves f) : Parser.Moves f (Expr.move f) g.mapType g.mapType := by
  refine (moves_expect _).bind fun pos => (moves_expect _).bind fun _ => ?_
  refine (moves_someType hg).bind fun key => (moves_expect _).bind fun _ => ?_
  exact (moves_someType hg).bind fun value => .pure (by simp [Expr.move])

theorem moves_chanType (hg : g.Moves f) : Parser.Moves f (Expr.move f) g.chanType g.chanType := by
  refine moves_isAt ?_ ?_
  · refine moves_nextPos.bind fun arrow => (moves_expect _).bind fun _ => ?_
    exact (moves_someType hg).bind fun value => .pure (by simp [Expr.move])
  · refine (moves_expect _).bind fun begin => moves_isAt ?_ ?_
    · refine moves_nextPos.bind fun arrow => ?_
      exact (moves_someType hg).bind fun value => .pure (by simp [Expr.move])
    · exact (moves_someType hg).bind fun value => .pure (by simp [Expr.move])

theorem moves_withEnd {α β : Type} {F : α → β} {p : Parser α} {p' : Parser β}
    (h : Parser.Moves f F p p') : Parser.Moves f F (withEnd p) (withEnd p') :=
  h.bind fun _ => moves_endStatement.bind fun _ => .pure rfl

theorem moves_fieldBlock {item : Parser Field} (h : Parser.Moves f (Field.move f) item item) :
    Parser.Moves f (FieldList.move f) (fieldBlock item) (fieldBlock item) := by
  refine (moves_expect _).bind fun opening => ?_
  refine (moves_untilKind (moves_withEnd h)).bind fun list => ?_
  exact (moves_expect _).bind fun closing => .pure (by simp [FieldList.move])

theorem moves_fieldBody (hg : g.Moves f) :
    Parser.Moves f (Prod.map (List.map (Ident.move f)) (Expr.move f)) g.fieldBody g.fieldBody := by
  refine moves_peekKind fun kind => ?_
  split
  · refine moves_nextPos.bind fun star => moves_typeName.bind fun x => .pure ?_
    simp [Expr.move]
  · refine moves_peekSecond fun second => ?_
    split
    · exact moves_typeName.bind fun ty => .pure rfl
    · exact moves_identList.bind fun names => (moves_someType hg).bind fun ty => .pure rfl
  · exact moves_failExpected _

theorem moves_fieldDecl (hg : g.Moves f) :
    Parser.Moves f (Field.move f) g.fieldDecl g.fieldDecl := by
  refine (moves_fieldBody hg).bind fun body => moves_isAt ?_ ?_
  · exact moves_basicLit.bind fun tag => .pure (by simp [Field.move])
  · exact .pure (by simp [Field.move])

theorem moves_structType (hg : g.Moves f) :
    Parser.Moves f (Expr.move f) g.structType g.structType := by
  refine (moves_expect _).bind fun pos => ?_
  exact (moves_fieldBlock (moves_fieldDecl hg)).bind fun fields => .pure (by simp [Expr.move])

theorem moves_variadicType (hg : g.Moves f) :
    Parser.Moves f (Option.map (Expr.move f)) g.variadicType g.variadicType := by
  refine moves_isAt ?_ hg.type
  refine moves_nextPos.bind fun pos => (moves_someType hg).bind fun elt => .pure ?_
  simp [Expr.move]

theorem moves_someVariadicType (hg : g.Moves f) :
    Parser.Moves f (Expr.move f) g.someVariadicType g.someVariadicType := by
  refine (moves_variadicType hg).bind fun ty => ?_
  cases ty with
  | none => exact moves_failExpected _
  | some ty => exact .pure rfl

/-- Entries are names in the same places. -/
theorem moves_entryNames (entries : List Expr) :
    Parser.Moves f (List.map (Ident.move f)) (entryNames entries)
      (entryNames (entries.map (Expr.move f))) := by
  induction entries with
  | nil => exact .pure rfl
  | cons entry entries ih =>
    cases entry with
    | ident name =>
      simp only [List.map_cons, Expr.move]
      exact ih.bind fun names => .pure rfl
    | _ =>
      simp only [List.map_cons, Expr.move]
      exact moves_failAt _ _ _ _ _

theorem moves_parameterGroup (hg : g.Moves f) :
    Parser.Moves f (Field.move f) g.parameterGroup g.parameterGroup := by
  refine moves_identList.bind fun names => (moves_someVariadicType hg).bind fun ty => .pure ?_
  simp [Field.move]

theorem move_unnamed (ty : Expr) : (unnamed ty).move f = unnamed (ty.move f) := by
  simp [unnamed, Field.move]

theorem moves_parameterFields (hg : g.Moves f) :
    Parser.Moves f (List.map (Field.move f)) g.parameterFields g.parameterFields := by
  refine moves_isAt (.pure rfl) ?_
  refine (moves_commaList (moves_someVariadicType hg)).bind fun entries => ?_
  refine (moves_variadicType hg).bind fun ty => ?_
  cases ty with
  | none => exact .pure (by simp [move_unnamed])
  | some ty =>
    refine (moves_entryNames entries).bind fun names => moves_eat ?_ ?_
    · refine (moves_commaList (moves_parameterGroup hg)).bind fun groups => .pure ?_
      simp [Field.move]
    · exact .pure (by simp [Field.move])

theorem moves_parameters (hg : g.Moves f) :
    Parser.Moves f (FieldList.move f) g.parameters g.parameters := by
  refine (moves_expect _).bind fun opening => (moves_parameterFields hg).bind fun list => ?_
  exact (moves_expect _).bind fun closing => .pure (by simp [FieldList.move])

theorem moves_signature (hg : g.Moves f) (func : Option Offset) :
    Parser.Moves f (FuncType.move f) (g.signature func) (g.signature (func.map f)) := by
  refine (moves_parameters hg).bind fun params => moves_isAt ?_ ?_
  · exact (moves_parameters hg).bind fun results => .pure (by simp [FuncType.move])
  · refine hg.type.bind fun result => .pure ?_
    cases result with
    | none => simp [FuncType.move]
    | some ty => simp [FuncType.move, FieldList.move, move_unnamed]

theorem moves_methodSpec (hg : g.Moves f) :
    Parser.Moves f (Field.move f) g.methodSpec g.methodSpec := by
  refine moves_isAt (moves_peekSecond fun second => ?_) (moves_failExpected _)
  split
  · refine moves_ident.bind fun name => (moves_signature hg none).bind fun ty => .pure ?_
    simp [Field.move, Expr.move]
  · exact moves_typeName.bind fun ty => .pure (move_unnamed ty).symm

theorem moves_interfaceType (hg : g.Moves f) :
    Parser.Moves f (Expr.move f) g.interfaceType g.interfaceType := by
  refine (moves_expect _).bind fun pos => ?_
  exact (moves_fieldBlock (moves_methodSpec hg)).bind fun methods => .pure (by simp [Expr.move])

theorem moves_typeBody (hg : g.Moves f) :
    Parser.Moves f (Option.map (Expr.move f)) g.typeBody g.typeBody := by
  refine moves_peekKind fun kind => ?_
  split
  · exact moves_typeName.map fun _ => rfl
  · exact (moves_arrayType hg).map fun _ => rfl
  · exact (moves_structType hg).map fun _ => rfl
  · refine moves_nextPos.bind fun star => (moves_someType hg).bind fun x => .pure ?_
    simp [Expr.move]
  · refine moves_nextPos.bind fun func => (moves_signature hg (some func)).bind fun ty => .pure ?_
    simp [Expr.move]
  · exact (moves_interfaceType hg).map fun _ => rfl
  · exact (moves_mapType hg).map fun _ => rfl
  · exact (moves_chanType hg).map fun _ => rfl
  · exact (moves_chanType hg).map fun _ => rfl
  · refine moves_nextPos.bind fun lparen => (moves_someType hg).bind fun x => ?_
    exact (moves_expect _).bind fun rparen => .pure (by simp [Expr.move])
  · exact .pure rfl

/-! ### Expressions -/

theorem moves_stmtList (hg : g.Moves f) :
    Parser.Moves f (List.map (Stmt.move f)) g.stmtList g.stmtList :=
  moves_untilKind hg.stmt

theorem moves_block (hg : g.Moves f) : Parser.Moves f (Block.move f) g.block g.block := by
  refine (moves_expect _).bind fun lbrace => (moves_stmtList hg).bind fun list => ?_
  exact (moves_expect _).bind fun rbrace => .pure (by simp [Block.move])

/-- Only the form of an expression decides. -/
theorem isLiteralType_move (x : Expr) (level : Int) :
    isLiteralType (x.move f) level = isLiteralType x level := by
  unfold isLiteralType
  rw [Expr.unparen_move]
  cases x.unparen with
  | selector x sel => cases x <;> rfl
  | _ => rfl

theorem moves_funcTypeOrLit (hg : g.Moves f) :
    Parser.Moves f (Expr.move f) g.funcTypeOrLit g.funcTypeOrLit := by
  refine (moves_expect _).bind fun func => (moves_signature hg (some func)).bind fun ty => ?_
  refine moves_isAt ?_ (.pure (by simp [Expr.move]))
  exact (moves_nested (moves_block hg)).bind fun body => .pure (by simp [Expr.move])

theorem moves_typeAssert (hg : g.Moves f) (x : Expr) :
    Parser.Moves f (Expr.move f) (g.typeAssert x) (g.typeAssert (x.move f)) := by
  refine (moves_expect _).bind fun lparen => moves_eat ?_ ?_
  · exact (moves_expect _).bind fun rparen => .pure (by simp [Expr.move])
  · refine (moves_someType hg).bind fun ty => ?_
    exact (moves_expect _).bind fun rparen => .pure (by simp [Expr.move])

/-- What stands between brackets, with its offsets moved. -/
def Brackets.move (f : Offset → Offset) : Brackets → Brackets
  | .index i => .index (i.move f)
  | .slice low high max slice3 =>
    .slice (low.map (Expr.move f)) (high.map (Expr.move f)) (max.map (Expr.move f)) slice3

theorem moves_sliceBound (hg : g.Moves f) :
    Parser.Moves f (Option.map (Expr.move f)) g.sliceBound g.sliceBound := by
  refine moves_peekKind fun kind => ?_
  split
  · exact .pure rfl
  · exact .pure rfl
  · exact (moves_expr hg).map fun _ => rfl

theorem moves_sliceBounds (hg : g.Moves f) (low : Option Expr) :
    Parser.Moves f (Brackets.move f) (g.sliceBounds low)
      (g.sliceBounds (low.map (Expr.move f))) := by
  refine (moves_sliceBound hg).bind fun high => moves_eat ?_ (.pure rfl)
  refine (moves_sliceBound hg).bind fun max => ?_
  rw [Option.isNone_map, Option.isNone_map]
  split
  · exact moves_fail _
  · exact .pure rfl

theorem moves_brackets (hg : g.Moves f) :
    Parser.Moves f (Brackets.move f) g.brackets g.brackets := by
  refine moves_eat (moves_sliceBounds hg none) ?_
  exact (moves_expr hg).bind fun low => moves_eat (moves_sliceBounds hg (some low)) (.pure rfl)

theorem moves_indexOrSlice (hg : g.Moves f) (x : Expr) :
    Parser.Moves f (Expr.move f) (g.indexOrSlice x) (g.indexOrSlice (x.move f)) := by
  refine (moves_expect _).bind fun lbrack => (moves_nested (moves_brackets hg)).bind fun inner => ?_
  refine (moves_expect _).bind fun rbrack => ?_
  cases inner with
  | index i => exact .pure (by simp [Expr.move])
  | slice low high max slice3 => exact .pure (by simp [Expr.move])

theorem moves_argument (hg : g.Moves f) :
    Parser.Moves f (Prod.map (Expr.move f) (Option.map f)) g.argument g.argument := by
  refine (moves_expr hg).bind fun x => moves_isAt ?_ (.pure rfl)
  exact moves_nextPos.bind fun pos => .pure rfl

theorem moves_call (hg : g.Moves f) (callee : Expr) :
    Parser.Moves f (Expr.move f) (g.call callee) (g.call (callee.move f)) := by
  refine (moves_expect _).bind fun lparen => ?_
  refine (moves_nested (moves_commaList (moves_argument hg))).bind fun args => ?_
  refine (moves_expect _).bind fun rparen => .pure ?_
  simp [Expr.move, List.filterMap_map, Function.comp_def, ← List.map_filterMap]

theorem moves_elementValue (hg : g.Moves f) :
    Parser.Moves f (Expr.move f) g.elementValue g.elementValue :=
  moves_isAt (hg.literal none) (moves_expr hg)

theorem moves_element (hg : g.Moves f) : Parser.Moves f (Expr.move f) g.element g.element := by
  refine (moves_elementValue hg).bind fun key => moves_isAt ?_ (.pure rfl)
  refine moves_nextPos.bind fun colon => (moves_elementValue hg).bind fun value => .pure ?_
  simp [Expr.move]

theorem moves_literalBody (hg : g.Moves f) (ty : Option Expr) :
    Parser.Moves f (Expr.move f) (g.literalBody ty) (g.literalBody (ty.map (Expr.move f))) := by
  refine (moves_expect _).bind fun lbrace => ?_
  refine (moves_nested (moves_commaList (moves_element hg))).bind fun elts => ?_
  exact (moves_expect _).bind fun rbrace => .pure (by simp [Expr.move])

theorem moves_operand (hg : g.Moves f) : Parser.Moves f (Expr.move f) g.operand g.operand := by
  refine moves_peekKind fun kind => ?_
  split
  · exact moves_ident.bind fun name => .pure rfl
  · exact moves_basicLit.bind fun lit => .pure rfl
  · refine moves_nextPos.bind fun lparen => (moves_nested (moves_expr hg)).bind fun x => ?_
    exact (moves_expect _).bind fun rparen => .pure (by simp [Expr.move])
  · exact moves_funcTypeOrLit hg
  · exact moves_someType hg
  · exact moves_someType hg
  · exact moves_someType hg
  · exact moves_someType hg
  · exact moves_someType hg
  · exact moves_someType hg
  · exact moves_failExpected _

theorem moves_selectorOrAssert (hg : g.Moves f) (x : Expr) :
    Parser.Moves f (Expr.move f) (g.selectorOrAssert x) (g.selectorOrAssert (x.move f)) := by
  refine moves_peekKind fun kind => ?_
  split
  · exact moves_ident.bind fun sel => .pure (by simp [Expr.move])
  · exact moves_typeAssert hg x
  · exact moves_failExpected _

theorem moves_suffix (hg : g.Moves f) (x : Expr) :
    Parser.Moves f (Option.map (Expr.move f)) (g.suffix x) (g.suffix (x.move f)) := by
  refine moves_peekKind fun kind => ?_
  split
  · exact moves_next fun _ _ _ => (moves_selectorOrAssert hg x).map fun _ => rfl
  · exact (moves_indexOrSlice hg x).map fun _ => rfl
  · exact (moves_call hg x).map fun _ => rfl
  · refine moves_level fun level => ?_
    rw [isLiteralType_move]
    split
    · exact (hg.literal (some x)).map fun _ => rfl
    · exact .pure rfl
  · exact .pure rfl

theorem moves_primary (hg : g.Moves f) : Parser.Moves f (Expr.move f) g.primary g.primary :=
  (moves_operand hg).bind fun x => moves_extend (moves_suffix hg) x

theorem moves_unaryBody (hg : g.Moves f) :
    Parser.Moves f (Expr.move f) g.unaryBody g.unaryBody := by
  refine moves_peekKind fun kind => moves_peekSecond fun second => ?_
  split
  · exact moves_nextPos.bind fun opPos => hg.unary.bind fun x => .pure (by simp [Expr.move])
  · refine moves_isAt ?_ (moves_primary hg)
    exact moves_nextPos.bind fun star => hg.unary.bind fun x => .pure (by simp [Expr.move])

theorem moves_operation (hg : g.Moves f) (least : Nat) (x : Expr) :
    Parser.Moves f (Option.map (Expr.move f)) (g.operation least x)
      (g.operation least (x.move f)) := by
  refine moves_peekKind fun kind => ?_
  split
  · rename_i op hop
    split
    · exact .pure rfl
    · refine moves_nextPos.bind fun opPos => (hg.expr _).bind fun y => .pure ?_
      simp [Expr.move]
  · exact .pure rfl

theorem moves_exprBody (hg : g.Moves f) (least : Nat) :
    Parser.Moves f (Expr.move f) (g.exprBody least) (g.exprBody least) :=
  hg.unary.bind fun x => moves_extend (moves_operation hg least) x

/-! ### Declarations -/

theorem moves_importName :
    Parser.Moves f (Option.map (Ident.move f)) importName importName := by
  refine moves_peekKind fun kind => ?_
  split
  · exact moves_ident.map fun _ => rfl
  · exact moves_nextPos.bind fun pos => .pure rfl
  · exact .pure rfl

theorem moves_importSpec : Parser.Moves f (Spec.move f) importSpec importSpec := by
  refine moves_importName.bind fun name => moves_isAt ?_ (moves_failExpected _)
  exact moves_basicLit.bind fun path => .pure (by simp [Spec.move])

theorem moves_specValues (hg : g.Moves f) :
    Parser.Moves f (List.map (Expr.move f)) g.specValues g.specValues :=
  moves_eat (moves_exprList hg) (.pure rfl)

theorem moves_valueSpec (hg : g.Moves f) (kind : DeclKind) :
    Parser.Moves f (Spec.move f) (g.valueSpec kind) (g.valueSpec kind) := by
  refine moves_identList.bind fun names => hg.type.bind fun ty => ?_
  refine (moves_specValues hg).bind fun values => ?_
  simp only [Option.isNone_map, Option.isSome_map, List.isEmpty_map]
  split
  · exact moves_failExpected _
  · split
    · exact moves_failExpected _
    · exact .pure (by simp [Spec.move])

theorem moves_typeSpec (hg : g.Moves f) :
    Parser.Moves f (Spec.move f) g.typeSpec g.typeSpec := by
  refine moves_ident.bind fun name => moves_isAt ?_ ?_
  · refine moves_nextPos.bind fun assign => (moves_someType hg).bind fun ty => .pure ?_
    simp [Spec.move]
  · exact (moves_someType hg).bind fun ty => .pure (by simp [Spec.move])

theorem moves_spec (hg : g.Moves f) (kind : DeclKind) :
    Parser.Moves f (Spec.move f) (g.spec kind) (g.spec kind) :=
  match kind with
  | .imports => moves_importSpec
  | .constants => moves_valueSpec hg .constants
  | .variables => moves_valueSpec hg .variables
  | .types => moves_typeSpec hg

theorem moves_genDecl (hg : g.Moves f) (kind : DeclKind) :
    Parser.Moves f (GenDecl.move f) (g.genDecl kind) (g.genDecl kind) := by
  refine moves_nextPos.bind fun tokPos => moves_isAt ?_ ?_
  · refine moves_nextPos.bind fun lparen => ?_
    refine (moves_untilKind (moves_withEnd (moves_spec hg kind))).bind fun specs => ?_
    exact (moves_expect _).bind fun rparen => .pure (by simp [GenDecl.move])
  · exact (moves_spec hg kind).bind fun spec => .pure (by simp [GenDecl.move])

theorem moves_receiver (hg : g.Moves f) :
    Parser.Moves f (Option.map (FieldList.move f)) g.receiver g.receiver :=
  moves_isAt ((moves_parameters hg).map fun _ => rfl) (.pure rfl)

theorem moves_funcBody (hg : g.Moves f) :
    Parser.Moves f (Option.map (Block.move f)) g.funcBody g.funcBody :=
  moves_isAt ((moves_block hg).map fun _ => rfl) (.pure rfl)

theorem moves_funcDecl (hg : g.Moves f) :
    Parser.Moves f (FuncDecl.move f) g.funcDecl g.funcDecl := by
  refine (moves_expect _).bind fun func => (moves_receiver hg).bind fun recv => ?_
  refine moves_ident.bind fun name => moves_isAt (moves_fail _) ?_
  refine (moves_signature hg none).bind fun ty => (moves_funcBody hg).bind fun body => ?_
  exact .pure rfl

theorem moves_decl (hg : g.Moves f) : Parser.Moves f (Decl.move f) g.decl g.decl := by
  refine moves_isAt ((moves_funcDecl hg).map fun _ => rfl) (moves_peekKind fun kind => ?_)
  split
  · exact (moves_genDecl hg _).map fun _ => rfl
  · exact moves_failExpected _

/-! ### Statements -/

theorem moves_assignTok? :
    Parser.Moves f (Option.map (AssignTok.move f)) assignTok? assignTok? := by
  refine moves_peekKind fun kind => ?_
  split
  · exact moves_nextPos.bind fun pos => .pure rfl
  · exact .pure rfl

theorem moves_assignment (hg : g.Moves f) (lhs : List Expr) (tok : AssignTok) :
    Parser.Moves f (Stmt.move f) (g.assignment lhs tok)
      (g.assignment (lhs.map (Expr.move f)) (tok.move f)) :=
  (moves_exprList hg).bind fun rhs => .pure (by simp [Stmt.move])

/-- Only names are moved to names. -/
theorem exists_ident_of_move {x : Expr} {label : Ident} (h : x.move f = .ident label) :
    ∃ i, x = .ident i := by
  cases x <;> simp [Expr.move] at h
  exact ⟨_, rfl⟩

theorem moves_afterExpr (hg : g.Moves f) (labelOk : Bool) (x : Expr) :
    Parser.Moves f (Stmt.move f) (g.afterExpr labelOk x) (g.afterExpr labelOk (x.move f)) := by
  refine moves_peekKind fun kind => ?_
  split
  · simp only [Expr.move]
    split
    · refine moves_nextPos.bind fun colon => hg.stmt.bind fun stmt => .pure ?_
      simp [Stmt.move]
    · exact .pure (by simp [Stmt.move, Expr.move])
  · refine moves_nextPos.bind fun arrow => (moves_expr hg).bind fun value => .pure ?_
    simp [Stmt.move]
  · exact moves_nextPos.bind fun tokPos => .pure (by simp [Stmt.move])
  · exact moves_nextPos.bind fun tokPos => .pure (by simp [Stmt.move])
  · rename_i hkinds hlabel
    -- what `x` is not, it is not when moved either
    have hlabel' (label : Ident) : kind = .symbol .colon → x.move f ≠ .ident label := by
      intro hkind hx
      obtain ⟨i, rfl⟩ := exists_ident_of_move hx
      exact hlabel i hkind rfl
    split
    · exact absurd ‹x.move f = _› (hlabel' _ rfl)
    · contradiction
    · contradiction
    · contradiction
    · exact .pure (by simp [Stmt.move])

theorem moves_afterExprs (hg : g.Moves f) (labelOk : Bool) (lhs : List Expr) :
    Parser.Moves f (Stmt.move f) (g.afterExprs labelOk lhs)
      (g.afterExprs labelOk (lhs.map (Expr.move f))) := by
  match lhs with
  | [] => exact moves_failExpected _
  | [x] => exact moves_afterExpr hg labelOk x
  | _ :: _ :: _ => exact moves_failExpected _

theorem moves_simple (hg : g.Moves f) (labelOk : Bool) :
    Parser.Moves f (Stmt.move f) (g.simple labelOk) (g.simple labelOk) := by
  refine (moves_exprList hg).bind fun lhs => moves_assignTok?.bind fun tok => ?_
  cases tok with
  | none => exact moves_afterExprs hg labelOk lhs
  | some tok => exact moves_assignment hg lhs tok

theorem moves_startedCall (hg : g.Moves f) (keyword : Keyword) :
    Parser.Moves f (Expr.move f) (g.startedCall keyword) (g.startedCall keyword) := by
  refine (moves_expr hg).bind fun x => ?_
  rw [Expr.unparen_move]
  cases x.unparen with
  | call callee lparen args dots rparen =>
    simp only [Expr.move]
    exact .pure rfl
  | _ =>
    simp only [Expr.move]
    exact moves_failAt _ _ _ _ _

theorem moves_branchLabel :
    Parser.Moves f (Option.map (Ident.move f)) branchLabel branchLabel :=
  moves_isAt (moves_ident.map fun _ => rfl) (.pure rfl)

theorem moves_branchStmt (kind : Branch) :
    Parser.Moves f (Stmt.move f) (branchStmt kind) (branchStmt kind) := by
  refine moves_nextPos.bind fun tokPos => ?_
  split
  · exact .pure (by simp [Stmt.move])
  · exact moves_branchLabel.bind fun label => .pure (by simp [Stmt.move])

theorem moves_returnResults (hg : g.Moves f) :
    Parser.Moves f (List.map (Expr.move f)) g.returnResults g.returnResults := by
  refine moves_peekKind fun kind => ?_
  split
  · exact .pure rfl
  · exact .pure rfl
  · exact moves_exprList hg

/-- A condition in place of a statement. -/
theorem moves_condition {init : Option Stmt} {s : Stmt} :
    Parser.Moves f (Prod.map (Option.map (Stmt.move f)) (Expr.move f))
      (match s with
        | .expr cond => pure (init, cond)
        | _ => failExpected .booleanExpression)
      (match s.move f with
        | .expr cond => pure (init.map (Stmt.move f), cond)
        | _ => failExpected .booleanExpression) := by
  cases s with
  | expr cond => exact .pure rfl
  | _ => exact moves_failExpected _

theorem moves_conditionAfter (hg : g.Moves f) (init : Option Stmt) :
    Parser.Moves f (Prod.map (Option.map (Stmt.move f)) (Expr.move f)) (g.conditionAfter init)
      (g.conditionAfter (init.map (Stmt.move f))) :=
  moves_isAt (moves_fail _) ((moves_simple hg false).bind fun _ => moves_condition)

theorem moves_ifHeader (hg : g.Moves f) :
    Parser.Moves f (Prod.map (Option.map (Stmt.move f)) (Expr.move f)) g.ifHeader g.ifHeader := by
  refine moves_eat (moves_conditionAfter hg none) ?_
  refine (moves_simple hg false).bind fun first => ?_
  exact moves_eat (moves_conditionAfter hg (some first)) moves_condition

theorem moves_elseBranch (hg : g.Moves f) :
    Parser.Moves f (Option.map (Stmt.move f)) g.elseBranch g.elseBranch := by
  refine moves_eat (moves_peekKind fun kind => ?_) (moves_endStatement.bind fun _ => .pure rfl)
  split
  · exact hg.ifThen.map fun _ => rfl
  · exact (moves_withEnd (moves_block hg)).bind fun block => .pure (by simp [Stmt.move])
  · exact moves_fail _

theorem moves_ifThenBody (hg : g.Moves f) :
    Parser.Moves f (Stmt.move f) g.ifThenBody g.ifThenBody := by
  refine (moves_expect _).bind fun pos => moves_isAt (moves_fail _) ?_
  refine (moves_header (moves_ifHeader hg)).bind fun head => (moves_block hg).bind fun body => ?_
  exact (moves_elseBranch hg).bind fun orElse => .pure (by simp [Stmt.move])

/-! ### Switches and selects -/

theorem isTypeGuard_move (x : Expr) : isTypeGuard (x.move f) = isTypeGuard x := by
  cases x with
  | typeAssert x lparen ty rparen => cases ty <;> rfl
  | _ => rfl

/-- Only the form of a statement decides. -/
theorem isTypeSwitchGuard_move (s : Stmt) :
    isTypeSwitchGuard (s.move f) = isTypeSwitchGuard s := by
  cases s with
  | expr x => exact isTypeGuard_move x
  | assign lhs tok rhs =>
    obtain ⟨pos, op⟩ := tok
    simp only [Stmt.move, Expr.moveAll_eq, AssignTok.move]
    -- only one target with one value can be a guard
    cases lhs with
    | nil => cases op <;> rfl
    | cons target lhs =>
      cases lhs with
      | cons second lhs => cases op <;> rfl
      | nil =>
        cases rhs with
        | nil => cases op <;> rfl
        | cons x rhs =>
          cases rhs with
          | cons second rhs => cases op <;> rfl
          | nil =>
            cases op with
            | define => exact isTypeGuard_move x
            | _ => rfl
  | _ => rfl

theorem moves_switchTag (hg : g.Moves f) (init : Option Stmt) :
    Parser.Moves f (Prod.map (Option.map (Stmt.move f)) (Option.map (Stmt.move f)))
      (switchHeader.switchTag g init) (switchHeader.switchTag g (init.map (Stmt.move f))) :=
  moves_isAt (.pure rfl) ((moves_simple hg false).bind fun _ => .pure rfl)

theorem moves_switchHeader (hg : g.Moves f) :
    Parser.Moves f (Prod.map (Option.map (Stmt.move f)) (Option.map (Stmt.move f)))
      g.switchHeader g.switchHeader := by
  refine moves_eat (moves_switchTag hg none) ((moves_simple hg false).bind fun first => ?_)
  exact moves_eat (moves_switchTag hg (some first)) (.pure rfl)

theorem moves_caseValues (hg : g.Moves f) (isCase : Bool) :
    Parser.Moves f (List.map (Expr.move f)) (g.caseValues isCase) (g.caseValues isCase) := by
  cases isCase with
  | false => exact .pure rfl
  | true => exact moves_exprList hg

theorem moves_caseClause (hg : g.Moves f) :
    Parser.Moves f (CaseClause.move f) g.caseClause g.caseClause := by
  refine (moves_isAt_id _).bind fun isCase => moves_nextPos.bind fun pos => ?_
  refine (moves_caseValues hg isCase).bind fun list => (moves_expect _).bind fun colon => ?_
  exact (moves_stmtList hg).bind fun body => .pure (by simp [CaseClause.move])

theorem moves_caseBlock (hg : g.Moves f) :
    Parser.Moves f (CaseBlock.move f) g.caseBlock g.caseBlock := by
  refine (moves_expect _).bind fun lbrace => ?_
  refine (moves_untilKind (moves_caseClause hg)).bind fun clauses => ?_
  exact (moves_expect _).bind fun rbrace => .pure (by simp [CaseBlock.move])

theorem moves_makeSwitch (pos : Offset) (init tag : Option Stmt) (body : CaseBlock) :
    Parser.Moves f (Stmt.move f) (makeSwitch pos init tag body)
      (makeSwitch (f pos) (init.map (Stmt.move f)) (tag.map (Stmt.move f)) (body.move f)) := by
  cases tag with
  | none => exact .pure (by simp [Stmt.move])
  | some guard =>
    refine .ite (by rw [isTypeSwitchGuard_move]) (.pure (by simp [Stmt.move])) ?_
    · cases guard with
      | expr x => exact .pure (by simp [Stmt.move])
      | _ => exact moves_failAt _ _ _ _ _

theorem moves_switchStmt (hg : g.Moves f) :
    Parser.Moves f (Stmt.move f) g.switchStmt g.switchStmt := by
  refine (moves_expect _).bind fun pos => ?_
  -- a switch without a header goes on as one with an empty header
  have hrest (head : Option Stmt × Option Stmt) : Parser.Moves f (Stmt.move f)
      (withEnd g.caseBlock >>= fun body => makeSwitch pos head.1 head.2 body)
      (withEnd g.caseBlock >>= fun body => makeSwitch (f pos) (head.1.map (Stmt.move f))
        (head.2.map (Stmt.move f)) body) :=
    (moves_withEnd (moves_caseBlock hg)).bind fun body => moves_makeSwitch _ _ _ _
  exact moves_isAt (hrest (none, none)) ((moves_header (moves_switchHeader hg)).bind hrest)

theorem moves_clauseComm (hg : g.Moves f) (isCase : Bool) :
    Parser.Moves f (Option.map (Stmt.move f)) (g.clauseComm isCase) (g.clauseComm isCase) := by
  cases isCase with
  | false => exact .pure rfl
  | true => exact (moves_simple hg false).map fun _ => rfl

theorem moves_commClause (hg : g.Moves f) :
    Parser.Moves f (CommClause.move f) g.commClause g.commClause := by
  refine (moves_isAt_id _).bind fun isCase => moves_nextPos.bind fun pos => ?_
  refine (moves_clauseComm hg isCase).bind fun comm => (moves_expect _).bind fun colon => ?_
  exact (moves_stmtList hg).bind fun body => .pure (by simp [CommClause.move])

theorem moves_selectStmt (hg : g.Moves f) :
    Parser.Moves f (Stmt.move f) g.selectStmt g.selectStmt := by
  refine (moves_expect _).bind fun pos => (moves_expect _).bind fun lbrace => ?_
  refine (moves_untilKind (moves_commClause hg)).bind fun clauses => ?_
  exact (moves_expect _).bind fun rbrace => .pure (by simp [Stmt.move])

/-! ### Loops -/

/-- The header of a loop with its offsets moved. -/
def LoopHeader.move (f : Offset → Offset) : LoopHeader → LoopHeader
  | .clauses init cond post =>
    .clauses (init.map (Stmt.move f)) (cond.map (Stmt.move f)) (post.map (Stmt.move f))
  | .range lhs tok x => .range (lhs.map (Expr.move f)) (tok.map (AssignTok.move f)) (x.move f)

theorem moves_loopStart (hg : g.Moves f) :
    Parser.Moves f (Sum.map (Stmt.move f) (LoopHeader.move f)) g.loopStart g.loopStart := by
  refine moves_eat ((moves_expr hg).bind fun x => .pure rfl) ?_
  refine (moves_exprList hg).bind fun lhs => moves_assignTok?.bind fun tok => ?_
  cases tok with
  | none => exact (moves_afterExprs hg false lhs).map fun _ => rfl
  | some tok =>
    refine (moves_isAt_id _).bind fun atRange => .ite Iff.rfl ?_ ?_
    · exact moves_next fun _ _ _ => (moves_expr hg).bind fun x => .pure rfl
    · exact (moves_assignment hg lhs tok).map fun _ => rfl

theorem moves_loopCondition (hg : g.Moves f) :
    Parser.Moves f (Option.map (Stmt.move f)) g.loopCondition g.loopCondition :=
  moves_isAt (.pure rfl) ((moves_simple hg false).map fun _ => rfl)

theorem moves_loopPost (hg : g.Moves f) :
    Parser.Moves f (Option.map (Stmt.move f)) g.loopPost g.loopPost :=
  moves_isAt (.pure rfl) ((moves_simple hg false).map fun _ => rfl)

theorem moves_loopClauses (hg : g.Moves f) (init : Option Stmt) :
    Parser.Moves f (LoopHeader.move f) (g.loopClauses init)
      (g.loopClauses (init.map (Stmt.move f))) := by
  refine (moves_loopCondition hg).bind fun cond => (moves_expect _).bind fun _ => ?_
  exact (moves_loopPost hg).bind fun post => .pure rfl

theorem moves_loopHeader (hg : g.Moves f) :
    Parser.Moves f (LoopHeader.move f) g.loopHeader g.loopHeader := by
  refine moves_eat (moves_loopClauses hg none) ((moves_loopStart hg).bind fun start => ?_)
  cases start with
  | inr range => exact .pure rfl
  | inl first => exact moves_eat (moves_loopClauses hg (some first)) (.pure rfl)

theorem moves_makeLoop (pos : Offset) (head : LoopHeader) (body : Block) :
    Parser.Moves f (Stmt.move f) (makeLoop pos head body)
      (makeLoop (f pos) (head.move f) (body.move f)) := by
  match head with
  | .range [] tok x | .range [_] tok x | .range [_, _] tok x => exact .pure (by simp [Stmt.move])
  | .range (_ :: _ :: _ :: _) _ _ => exact moves_failAt _ _ _ _ _
  | .clauses init none post => exact .pure (by simp [Stmt.move])
  | .clauses init (some cond) post =>
    cases cond with
    | expr cond => exact .pure (by simp [Stmt.move])
    | _ => exact moves_failExpected _

theorem moves_loop (hg : g.Moves f) : Parser.Moves f (Stmt.move f) g.loop g.loop := by
  refine (moves_expect _).bind fun pos => ?_
  -- a loop without a header goes on as one whose clauses are empty
  have hrest (head : LoopHeader) : Parser.Moves f (Stmt.move f)
      (g.block >>= fun body => makeLoop pos head body)
      (g.block >>= fun body => makeLoop (f pos) (head.move f) body) :=
    (moves_block hg).bind fun body => moves_makeLoop _ _ _
  exact moves_isAt (hrest (.clauses none none none))
    ((moves_header (moves_loopHeader hg)).bind hrest)

/-! ### All statements -/

theorem moves_exprStmt (hg : g.Moves f) :
    Parser.Moves f (Stmt.move f) g.exprStmt g.exprStmt := by
  refine (moves_simple hg true).bind fun s => ?_
  cases s with
  | labeled label colon stmt =>
    -- the labeled statement has ended itself
    exact .pure rfl
  | _ => exact moves_endStatement.bind fun _ => .pure rfl

theorem moves_keywordStmt (hg : g.Moves f) (word : Keyword) :
    Parser.Moves f (Stmt.move f) (g.keywordStmt word) (g.keywordStmt word) := by
  unfold keywordStmt
  split
  · exact (moves_genDecl hg _).map fun _ => rfl
  · exact (moves_genDecl hg _).map fun _ => rfl
  · exact (moves_genDecl hg _).map fun _ => rfl
  · refine moves_nextPos.bind fun pos => (moves_startedCall hg _).bind fun call => .pure ?_
    simp [Stmt.move]
  · refine moves_nextPos.bind fun pos => (moves_startedCall hg _).bind fun call => .pure ?_
    simp [Stmt.move]
  · refine moves_nextPos.bind fun pos => (moves_returnResults hg).bind fun results => .pure ?_
    simp [Stmt.move]
  · exact moves_branchStmt _
  · exact moves_branchStmt _
  · exact moves_branchStmt _
  · exact moves_branchStmt _
  · exact moves_selectStmt hg
  · exact moves_loop hg
  · exact moves_failExpected _

theorem moves_emptyStmt : Parser.Moves f (Stmt.move f) emptyStmt emptyStmt := by
  refine moves_next fun a b hab => .pure ?_
  simp [Stmt.move, EmptyStmt.move, hab.start, hab.isEmpty]

theorem moves_stmtBody (hg : g.Moves f) :
    Parser.Moves f (Stmt.move f) g.stmtBody g.stmtBody := by
  refine moves_peek fun a b hab => ?_
  rw [hab.kind, hab.start]
  split
  · exact hg.ifThen
  · exact moves_switchStmt hg
  · exact moves_emptyStmt
  · exact .pure (by simp [Stmt.move, EmptyStmt.move])
  · exact (moves_withEnd (moves_block hg)).map fun _ => by simp [Stmt.move]
  · split
    · exact moves_exprStmt hg
    · split
      · exact moves_withEnd (moves_keywordStmt hg _)
      · exact moves_failExpected _

/-! ### Files -/

/-- **The recursive rules read moved constructs**, under every bound on their nesting. -/
theorem moves_run (f : Offset → Offset) (n : Nat) : (run n).Moves f := by
  induction n with
  | zero =>
    exact ⟨fun _ => moves_exhausted, moves_exhausted, moves_exhausted, fun _ => moves_exhausted,
      moves_exhausted, moves_exhausted⟩
  | succ n ih =>
    exact ⟨moves_exprBody ih, moves_unaryBody ih, moves_typeBody ih, moves_literalBody ih,
      moves_stmtBody ih, moves_ifThenBody ih⟩

theorem moves_packageClause :
    Parser.Moves f (Prod.map f (Ident.move f)) packageClause packageClause := by
  refine (moves_expect _).bind fun package => moves_ident.bind fun name => ?_
  exact moves_endStatement.bind fun _ => .pure rfl

/-- **The package clause and the declarations.** -/
theorem moves_file (hg : g.Moves f) :
    Parser.Moves f (Prod.map f (Prod.map (Ident.move f) (List.map (Decl.move f))))
      g.file g.file := by
  refine moves_packageClause.bind fun clause => ?_
  exact (moves_untilKind (moves_withEnd (moves_decl hg))).bind fun decls => .pure rfl

end Grammar

/-- **A text with carriage returns is read exactly when the text is**, and as the same file but for
its offsets. -/
theorem parse_withReturns (t : Text) :
    (∃ file file', parse t = .ok file ∧ parse t.withReturns = .ok file' ∧
      file.Moved t.tokenShift file') ∨
      ∃ e e', parse t = .error e ∧ parse t.withReturns = .error e' := by
  have htokens := TokenStream.forall₂_moved t
  have hstate : ParserState.Moved t.tokenShift ⟨(TokenStream.ofText t).tokens, 0⟩
      ⟨(TokenStream.ofText t.withReturns).tokens, 0⟩ := by
    refine ⟨htokens, rfl, ?_⟩
    obtain ⟨init, hinit, -⟩ := Token.exists_significant_eq_append t.size false
      fun token (htoken : token ∈ Token.body t) => Token.kind_ne_endOfFile_of_mem_body htoken
    refine ⟨.endOfFile t.size, ?_, rfl⟩
    rw [TokenStream.tokens_eq, hinit, List.getLast?_append_cons, List.getLast?_singleton]
  unfold parse
  dsimp only
  -- both texts have as many tokens, so their readers start with the same bound
  rw [← htokens.length_eq]
  generalize Grammar.nesting (TokenStream.ofText t).tokens.length = n
  rcases Grammar.moves_file (Grammar.moves_run t.tokenShift n) _ _ hstate with
    ⟨⟨package, name, decls⟩, u, u', hrun, hrun', -⟩ | ⟨e, u, e', u', hrun, hrun'⟩
  · rw [hrun, hrun']
    exact .inl ⟨_, _, rfl, rfl, rfl, rfl, rfl⟩
  · rw [hrun, hrun']
    exact .inr ⟨e, e', rfl, rfl⟩

end GoTree
