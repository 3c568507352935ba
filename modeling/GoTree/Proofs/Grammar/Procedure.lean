import GoTree.Proofs.Grammar.SteadyRun

/-!
# The procedures of the grammar

All rules of the grammar as one family, so that what holds of every rule can be said, and its loops
as another.

## Main definitions

* `Procedure`, `Procedure.reader`: the rules of the grammar, and how they read
* `Procedure.Node`: whether what a rule reads is a construct
* `Loop`, `Loop.round`: the loops of the grammar, and what one of their rounds reads

## Main results

* `Procedure.steady`: every rule is steady, and takes a token where it reads a construct
* `Loop.steady`: every round of every loop takes a token
-/

namespace GoTree

open GoTree.Parser GoTree.Grammar

/-- **The rules of the grammar.** -/
inductive Procedure : Type → Type
  -- names, literals and the recursive rules
  | ident : Procedure Ident
  | identList : Procedure (List Ident)
  | basicLit : Procedure BasicLit
  | rule (r : Rule) : Procedure r.Result
  | expr : Procedure Expr
  | exprList : Procedure (List Expr)
  -- types
  | someType : Procedure Expr
  | typeName : Procedure Expr
  | arrayType : Procedure Expr
  | arrayLength : Procedure (Option Expr)
  | mapType : Procedure Expr
  | chanType : Procedure Expr
  | fieldBody : Procedure (List Ident × Expr)
  | fieldDecl : Procedure Field
  | structType : Procedure Expr
  | variadicType : Procedure (Option Expr)
  | someVariadicType : Procedure Expr
  | entryNames (entries : List Expr) : Procedure (List Ident)
  | parameterGroup : Procedure Field
  | parameterFields : Procedure (List Field)
  | parameters : Procedure FieldList
  | signature (func : Option Offset) : Procedure FuncType
  | methodSpec : Procedure Field
  | interfaceType : Procedure Expr
  -- expressions
  | stmtList : Procedure (List Stmt)
  | block : Procedure Block
  | funcTypeOrLit : Procedure Expr
  | typeAssert (x : Expr) : Procedure Expr
  | sliceBound : Procedure (Option Expr)
  | sliceBounds (low : Option Expr) : Procedure Brackets
  | brackets : Procedure Brackets
  | indexOrSlice (x : Expr) : Procedure Expr
  | argument : Procedure (Expr × Option Offset)
  | call (callee : Expr) : Procedure Expr
  | elementValue : Procedure Expr
  | element : Procedure Expr
  | operand : Procedure Expr
  | selectorOrAssert (x : Expr) : Procedure Expr
  | suffix (x : Expr) : Procedure (Option Expr)
  | primary : Procedure Expr
  | operation (least : Nat) (x : Expr) : Procedure (Option Expr)
  -- declarations
  | importName : Procedure (Option Ident)
  | specValues : Procedure (List Expr)
  | spec (kind : DeclKind) : Procedure Spec
  | genDecl (kind : DeclKind) : Procedure GenDecl
  | receiver : Procedure (Option FieldList)
  | funcBody : Procedure (Option Block)
  | funcDecl : Procedure FuncDecl
  | decl : Procedure Decl
  -- statements
  | assignTok? : Procedure (Option AssignTok)
  | assignment (lhs : List Expr) (tok : AssignTok) : Procedure Stmt
  | afterExpr (labelOk : Bool) (x : Expr) : Procedure Stmt
  | afterExprs (labelOk : Bool) (lhs : List Expr) : Procedure Stmt
  | simple (labelOk : Bool) : Procedure Stmt
  | startedCall (keyword : Keyword) : Procedure Expr
  | branchLabel : Procedure (Option Ident)
  | branchStmt (kind : Branch) : Procedure Stmt
  | returnResults : Procedure (List Expr)
  | conditionAfter (init : Option Stmt) : Procedure (Option Stmt × Expr)
  | ifHeader : Procedure (Option Stmt × Expr)
  | elseBranch : Procedure (Option Stmt)
  | switchTag (init : Option Stmt) : Procedure (Option Stmt × Option Stmt)
  | switchHeader : Procedure (Option Stmt × Option Stmt)
  | caseValues (isCase : Bool) : Procedure (List Expr)
  | caseClause : Procedure CaseClause
  | caseBlock : Procedure CaseBlock
  | makeSwitch (pos : Offset) (init tag : Option Stmt) (body : CaseBlock) : Procedure Stmt
  | switchStmt : Procedure Stmt
  | clauseComm (isCase : Bool) : Procedure (Option Stmt)
  | commClause : Procedure CommClause
  | selectStmt : Procedure Stmt
  | loopStart : Procedure (Stmt ⊕ LoopHeader)
  | loopCondition : Procedure (Option Stmt)
  | loopPost : Procedure (Option Stmt)
  | loopClauses (init : Option Stmt) : Procedure LoopHeader
  | loopHeader : Procedure LoopHeader
  | makeLoop (pos : Offset) (head : LoopHeader) (body : Block) : Procedure Stmt
  | loop : Procedure Stmt
  | exprStmt : Procedure Stmt
  | keywordStmt (word : Keyword) : Procedure Stmt
  | emptyStmt : Procedure Stmt
  -- files
  | packageClause : Procedure (Offset × Ident)
  | file : Procedure (Offset × Ident × List Decl)

namespace Procedure

/-- **How a rule reads**, given readers for the recursive rules it calls. -/
def reader (g : Grammar) : {α : Type} → Procedure α → Parser α
  | _, .ident => Parser.ident
  | _, .identList => Parser.identList
  | _, .basicLit => Parser.basicLit
  | _, .rule r => body g r
  | _, .expr => g.expr
  | _, .exprList => g.exprList
  | _, .someType => g.someType
  | _, .typeName => Grammar.typeName
  | _, .arrayType => g.arrayType
  | _, .arrayLength => Grammar.arrayType.arrayLength g
  | _, .mapType => g.mapType
  | _, .chanType => g.chanType
  | _, .fieldBody => g.fieldBody
  | _, .fieldDecl => g.fieldDecl
  | _, .structType => g.structType
  | _, .variadicType => g.variadicType
  | _, .someVariadicType => g.someVariadicType
  | _, .entryNames entries => Grammar.entryNames entries
  | _, .parameterGroup => g.parameterGroup
  | _, .parameterFields => g.parameterFields
  | _, .parameters => g.parameters
  | _, .signature func => g.signature func
  | _, .methodSpec => g.methodSpec
  | _, .interfaceType => g.interfaceType
  | _, .stmtList => g.stmtList
  | _, .block => g.block
  | _, .funcTypeOrLit => g.funcTypeOrLit
  | _, .typeAssert x => g.typeAssert x
  | _, .sliceBound => g.sliceBound
  | _, .sliceBounds low => g.sliceBounds low
  | _, .brackets => g.brackets
  | _, .indexOrSlice x => g.indexOrSlice x
  | _, .argument => g.argument
  | _, .call callee => g.call callee
  | _, .elementValue => g.elementValue
  | _, .element => g.element
  | _, .operand => g.operand
  | _, .selectorOrAssert x => g.selectorOrAssert x
  | _, .suffix x => g.suffix x
  | _, .primary => g.primary
  | _, .operation least x => g.operation least x
  | _, .importName => Grammar.importName
  | _, .specValues => g.specValues
  | _, .spec kind => g.spec kind
  | _, .genDecl kind => g.genDecl kind
  | _, .receiver => g.receiver
  | _, .funcBody => g.funcBody
  | _, .funcDecl => g.funcDecl
  | _, .decl => g.decl
  | _, .assignTok? => Grammar.assignTok?
  | _, .assignment lhs tok => g.assignment lhs tok
  | _, .afterExpr labelOk x => g.afterExpr labelOk x
  | _, .afterExprs labelOk lhs => g.afterExprs labelOk lhs
  | _, .simple labelOk => g.simple labelOk
  | _, .startedCall keyword => g.startedCall keyword
  | _, .branchLabel => Grammar.branchLabel
  | _, .branchStmt kind => Grammar.branchStmt kind
  | _, .returnResults => g.returnResults
  | _, .conditionAfter init => g.conditionAfter init
  | _, .ifHeader => g.ifHeader
  | _, .elseBranch => g.elseBranch
  | _, .switchTag init => Grammar.switchHeader.switchTag g init
  | _, .switchHeader => g.switchHeader
  | _, .caseValues isCase => g.caseValues isCase
  | _, .caseClause => g.caseClause
  | _, .caseBlock => g.caseBlock
  | _, .makeSwitch pos init tag body => Grammar.makeSwitch pos init tag body
  | _, .switchStmt => g.switchStmt
  | _, .clauseComm isCase => g.clauseComm isCase
  | _, .commClause => g.commClause
  | _, .selectStmt => g.selectStmt
  | _, .loopStart => g.loopStart
  | _, .loopCondition => g.loopCondition
  | _, .loopPost => g.loopPost
  | _, .loopClauses init => g.loopClauses init
  | _, .loopHeader => g.loopHeader
  | _, .makeLoop pos head body => Grammar.makeLoop pos head body
  | _, .loop => g.loop
  | _, .exprStmt => g.exprStmt
  | _, .keywordStmt word => g.keywordStmt word
  | _, .emptyStmt => Grammar.emptyStmt
  | _, .packageClause => Grammar.packageClause
  | _, .file => g.file

/-- **Whether what a rule reads is a construct** of its own: a type that is there, a statement other
than the empty one that is left out before a closing brace, and a jump, clause or empty statement at
the token it begins with.  The remaining rules read a part that may be absent, or go on from a part
already read. -/
def Node : {α : Type} → Procedure α → ParserState → α → Prop
  | _, .rule .type, _, ty => ty.isSome = true
  | _, .rule .stmt, s, stmt =>
    ¬((current s).kind = .symbol .rightBrace ∧ stmt = .empty ⟨(current s).start, true⟩)
  | _, .variadicType, _, ty => ty.isSome = true
  | _, .suffix _, _, next => next.isSome = true
  | _, .operation _ _, _, next => next.isSome = true
  | _, .branchStmt _, s, _ => (current s).kind ≠ .endOfFile
  | _, .caseClause, s, _ => (current s).kind ≠ .endOfFile
  | _, .commClause, s, _ => (current s).kind ≠ .endOfFile
  | _, .keywordStmt _, s, _ => (current s).kind ≠ .endOfFile
  | _, .emptyStmt, s, _ => (current s).kind ≠ .endOfFile
  | _, .arrayLength, _, _ | _, .entryNames _, _, _ | _, .parameterFields, _, _ => False
  | _, .stmtList, _, _ | _, .sliceBound, _, _ | _, .sliceBounds _, _, _ => False
  | _, .brackets, _, _ | _, .importName, _, _ | _, .specValues, _, _ => False
  | _, .receiver, _, _ | _, .funcBody, _, _ | _, .assignTok?, _, _ => False
  | _, .assignment _ _, _, _ | _, .afterExpr _ _, _, _ | _, .afterExprs _ _, _, _ => False
  | _, .branchLabel, _, _ | _, .returnResults, _, _ | _, .conditionAfter _, _, _ => False
  | _, .ifHeader, _, _ | _, .elseBranch, _, _ | _, .switchTag _, _, _ => False
  | _, .switchHeader, _, _ | _, .caseValues _, _, _ | _, .makeSwitch _ _ _ _, _, _ => False
  | _, .clauseComm _, _, _ | _, .loopStart, _, _ | _, .loopCondition, _, _ => False
  | _, .loopPost, _, _ | _, .loopClauses _, _, _ | _, .loopHeader, _, _ => False
  | _, .makeLoop _ _ _, _, _ => False
  | _, _, _, _ => True

/-! ### Every rule is steady -/

section

variable {α : Type} {s : ParserState} {p p' : Parser α}

/-- A reader that always takes a token. -/
theorem always {P N : α → Prop} (h : Steady s p p' (Takes s P)) :
    Steady s p p' fun a rest => N a → rest.length < s.left :=
  h.mono fun _ _ ha _ => ha.1

/-- A reader that reads no construct of its own. -/
theorem never {Q : α → List Token → Prop} (h : Steady s p p' Q) :
    Steady s p p' fun _ rest => False → rest.length < s.left :=
  h.mono fun _ _ _ => False.elim

variable {p p' : Parser (Option α)}

/-- A reader that takes a token if it finds something. -/
theorem whereFound {P : α → Prop}
    (h : Steady s p p' fun found rest => ∀ a ∈ found, Takes s P a rest) :
    Steady s p p' fun found rest => found.isSome = true → rest.length < s.left :=
  h.mono fun _ _ hfound hsome => (hfound _ (Option.get_mem hsome)).1

theorem whereStepped {Inv : α → List Token → Prop} {Done : List Token → Prop}
    (h : Steady s p p' (Stepped s Inv Done)) :
    Steady s p p' fun found rest => found.isSome = true → rest.length < s.left :=
  h.mono fun found _ hfound hsome => match found, hfound, hsome with
    | some _, hfound, _ => hfound.1

end

variable {law : LevelLaw} {m : Nat} {header : Bool} {g g' : Grammar} {s : ParserState}

theorem steady_rule (hg : SteadyBelow law m g g') (hs : Ready law.stmt m header 4 s) (r : Rule) :
    Steady s (body g r) (body g' r) fun a rest => (rule r).Node s a → rest.length < s.left := by
  -- where a statement may start, so may everything else
  have hallows : law.Allows r s.level := by
    cases r
    case stmt | ifThen => exact hs.level
    all_goals exact law.expr_of_stmt hs.level
  have hsteady : Steady s (body g r) (body g' r) (r.Post s) :=
    steady_body (hg.mono (Nat.le_of_lt (hs.measure_lt r r.rank_lt))) hallows
  cases r with
  | expr least => exact hsteady.mono fun _ _ h _ => h.1.1
  | unary => exact always hsteady
  | type => exact whereFound hsteady
  | literal ty => exact always hsteady
  | stmt =>
    -- a statement left out before a closing brace takes nothing
    refine ⟨hsteady.same, hsteady.reaches, hsteady.error, fun stmt hstmt hnode => ?_⟩
    refine (hsteady.ok stmt hstmt).2 fun hbrace => hnode ⟨hbrace, ?_⟩
    rw [show body g .stmt s = _ from stmtBody_rightBrace g hbrace] at hstmt
    exact (Except.ok.inj hstmt).symm
  | ifThen => exact always hsteady

/-- **Every rule is steady, and takes a token where it reads a construct.** -/
theorem steady (hg : SteadyBelow law m g g') (hs : Ready law.stmt m header 4 s) {α : Type}
    (p : Procedure α) :
    Steady s (p.reader g) (p.reader g') fun a rest => p.Node s a → rest.length < s.left := by
  -- a procedure takes a token always, where it finds something, or not by itself
  cases p with
  | ident => exact always steady_ident
  | identList => exact always (steady_identList hs)
  | basicLit => exact steady_basicLit.mono fun _ _ h _ => h.1
  | rule r => exact steady_rule hg hs r
  | expr => exact always (hg.expr hs.expr.mono)
  | exprList => exact always (steady_exprList hg hs.expr.mono)
  | someType => exact always (steady_someType hg hs.expr.mono)
  | typeName => exact always steady_typeName
  | arrayType => exact always (steady_arrayType hg hs.expr)
  | arrayLength => exact never (steady_arrayLength hg hs.expr)
  | mapType => exact always (steady_mapType hg hs.expr)
  | chanType => exact always (steady_chanType hg hs.expr)
  | fieldBody => exact always (steady_fieldBody hg hs.expr)
  | fieldDecl => exact always (steady_fieldDecl hg hs.expr)
  | structType => exact always (steady_structType hg hs.expr)
  | variadicType => exact whereFound (steady_variadicType hg hs.expr.mono)
  | someVariadicType => exact always (steady_someVariadicType hg hs.expr.mono)
  | entryNames entries => exact never (steady_entryNames entries)
  | parameterGroup => exact always (steady_parameterGroup hg hs.expr)
  | parameterFields => exact never (steady_parameterFields hg hs.expr)
  | parameters => exact always (steady_parameters hg hs.expr)
  | signature func => exact always (steady_signature hg hs.expr func)
  | methodSpec => exact always (steady_methodSpec hg hs.expr)
  | interfaceType => exact always (steady_interfaceType hg hs.expr)
  | stmtList => exact never (steady_stmtList hg hs)
  | block => exact always (steady_block hg hs)
  | funcTypeOrLit => exact always (steady_funcTypeOrLit hg hs.expr 1)
  | typeAssert x => exact always (steady_typeAssert hg hs.expr)
  | sliceBound => exact never (steady_sliceBound hg hs.expr.mono)
  | sliceBounds low => exact never (steady_sliceBounds hg hs.expr)
  | brackets => exact never (steady_brackets hg hs.expr)
  | indexOrSlice x => exact always (steady_indexOrSlice hg hs.expr)
  | argument => exact always (steady_argument hg hs.expr.mono)
  | call callee => exact always (steady_call hg hs.expr)
  | elementValue => exact always (steady_elementValue hg hs.expr.mono)
  | element => exact always (steady_element hg hs.expr.mono)
  | operand => exact always (steady_operand hg hs.expr.mono 1)
  | selectorOrAssert x => exact always (steady_selectorOrAssert hg hs.expr)
  | suffix x => exact whereFound (steady_suffix hg hs.expr.mono)
  | primary => exact always (steady_primary hg hs.expr.mono)
  | operation least x => exact whereStepped (steady_operation hg hs.expr)
  | importName => exact never steady_importName
  | specValues => exact never (steady_specValues hg hs.expr.mono)
  | spec kind => exact always (steady_spec hg hs.expr kind)
  | genDecl kind => exact always (steady_genDecl hg hs.expr (.inl (Nat.le_refl 4)) kind)
  | receiver => exact never (steady_receiver hg hs.expr)
  | funcBody => exact never (steady_funcBody hg hs)
  | funcDecl => exact always (steady_funcDecl hg hs)
  | decl => exact always (steady_decl hg hs)
  | assignTok? => exact never steady_assignTok?
  | assignment lhs tok => exact never (steady_assignment hg hs.expr.mono)
  | afterExpr labelOk x => exact never (steady_afterExpr hg hs.simpleOfStmt)
  | afterExprs labelOk lhs => exact never (steady_afterExprs hg hs.simpleOfStmt)
  | simple labelOk => exact always (steady_simple hg hs.simpleOfStmt.mono)
  | startedCall keyword => exact always (steady_startedCall hg hs.expr.mono keyword)
  | branchLabel => exact never steady_branchLabel
  | branchStmt kind => exact (steady_branchStmt kind).mono fun _ _ h => h.1
  | returnResults => exact never (steady_returnResults hg hs.expr.mono)
  | conditionAfter init => exact never (steady_conditionAfter hg hs.expr)
  | ifHeader => exact never (steady_ifHeader hg hs.expr)
  | elseBranch => exact never (steady_elseBranch hg hs)
  | switchTag init => exact never (steady_switchTag hg hs.expr)
  | switchHeader => exact never (steady_switchHeader hg hs.expr)
  | caseValues isCase => exact never (steady_caseValues hg hs.expr.mono isCase)
  | caseClause => exact (steady_caseClause hg hs).mono fun _ _ h => h.1
  | caseBlock => exact always (steady_caseBlock hg hs)
  | makeSwitch pos init tag body => exact never steady_makeSwitch
  | switchStmt => exact always (steady_switchStmt hg hs)
  | clauseComm isCase => exact never (steady_clauseComm hg hs.expr.mono isCase)
  | commClause => exact (steady_commClause hg hs).mono fun _ _ h => h.1
  | selectStmt => exact always (steady_selectStmt hg hs)
  | loopStart => exact never (steady_loopStart hg hs.expr)
  | loopCondition => exact never (steady_loopCondition hg hs.expr)
  | loopPost => exact never (steady_loopPost hg hs.expr)
  | loopClauses init => exact never (steady_loopClauses hg hs.expr)
  | loopHeader => exact never (steady_loopHeader hg hs.expr)
  | makeLoop pos head body => exact never steady_makeLoop
  | loop => exact always (steady_loop hg hs)
  | exprStmt => exact always (steady_exprStmt hg hs.mono)
  | keywordStmt word =>
    exact (steady_keywordStmt hg hs (.inl (Nat.le_refl 4)) word).mono fun _ _ h => h.1
  | emptyStmt => exact steady_emptyStmt.mono fun _ _ h => h.1
  | packageClause => exact always (steady_packageClause hs)
  | file => exact always (steady_file hg hs)

end Procedure

/-! ### Loops -/

/-- **The loops of the grammar.** -/
inductive Loop : Type → Type
  -- items until a kind of token
  | decls : Loop Decl
  | specs (kind : DeclKind) : Loop Spec
  | stmts : Loop Stmt
  | caseClauses : Loop CaseClause
  | commClauses : Loop CommClause
  | fields : Loop Field
  | methods : Loop Field
  -- items separated by commas
  | entries : Loop Expr
  | groups : Loop Field
  | arguments : Loop (Expr × Option Offset)
  | elements : Loop Expr
  | idents : Loop Ident
  | exprs : Loop Expr
  -- values that are extended
  | suffixes (x : Expr) : Loop (Option Expr)
  | operations (least : Nat) (x : Expr) : Loop (Option Expr)

namespace Loop

/-- What one round of a loop reads. -/
def round (g : Grammar) : {α : Type} → Loop α → Parser α
  | _, .decls => withEnd g.decl
  | _, .specs kind => withEnd (g.spec kind)
  | _, .stmts => g .stmt
  | _, .caseClauses => g.caseClause
  | _, .commClauses => g.commClause
  | _, .fields => withEnd g.fieldDecl
  | _, .methods => withEnd g.methodSpec
  | _, .entries => g.someVariadicType
  | _, .groups => g.parameterGroup
  | _, .arguments => g.argument
  | _, .elements => g.element
  | _, .idents => Parser.ident
  | _, .exprs => g.expr
  | _, .suffixes x => g.suffix x
  | _, .operations least x => g.operation least x

/-- The kinds of tokens before which a loop ends without a further round. -/
def stops : {α : Type} → Loop α → Token.Kind → Bool
  | _, .decls => (· == .endOfFile)
  | _, .specs _ | _, .arguments => closesArguments
  | _, .stmts => endsStatements.contains
  | _, .caseClauses | _, .commClauses => endsClauses
  | _, .fields | _, .methods | _, .elements => closesBraces
  | _, .entries | _, .groups => closesParameters
  | _, .idents | _, .exprs | _, .suffixes _ | _, .operations _ _ => fun _ => false

/-- Whether a loop goes on after what its round has read: a value is extended for as long as there
is something to extend it with. -/
def goesOn : {α : Type} → Loop α → α → Prop
  | _, .suffixes _, next => next.isSome = true
  | _, .operations _ _, next => next.isSome = true
  | _, _, _ => True

variable {law : LevelLaw} {m : Nat} {header : Bool} {g g' : Grammar} {s : ParserState}

/-- **Every round of every loop takes a token.** -/
theorem steady (hg : SteadyBelow law m g g') (hs : Ready law.stmt m header 4 s) {α : Type}
    (l : Loop α) (hstop : l.stops (current s).kind = false) :
    Steady s (l.round g) (l.round g') fun a rest => l.goesOn a → rest.length < s.left := by
  cases l with
  | decls => exact Procedure.always (steady_withEnd (steady_decl hg hs))
  | specs kind => exact Procedure.always (steady_withEnd (steady_spec hg hs.expr kind))
  | stmts =>
    exact (hg.stmt hs).mono fun _ _ h _ => h.2 (ne_rightBrace_of_endsStatements hstop)
  | caseClauses =>
    exact (steady_caseClause hg hs).mono fun _ _ h _ => h.1 (ne_endOfFile_of_endsClauses hstop)
  | commClauses =>
    exact (steady_commClause hg hs).mono fun _ _ h _ => h.1 (ne_endOfFile_of_endsClauses hstop)
  | fields => exact Procedure.always (steady_withEnd (steady_fieldDecl hg hs.expr))
  | methods => exact Procedure.always (steady_withEnd (steady_methodSpec hg hs.expr))
  | entries => exact Procedure.always (steady_someVariadicType hg hs.expr.mono)
  | groups => exact Procedure.always (steady_parameterGroup hg hs.expr)
  | arguments => exact Procedure.always (steady_argument hg hs.expr.mono)
  | elements => exact Procedure.always (steady_element hg hs.expr.mono)
  | idents => exact Procedure.always steady_ident
  | exprs => exact Procedure.always (hg.expr hs.expr.mono)
  | suffixes x => exact Procedure.whereFound (steady_suffix hg hs.expr.mono)
  | operations least x => exact Procedure.whereStepped (steady_operation hg hs.expr)

end Loop

end GoTree
