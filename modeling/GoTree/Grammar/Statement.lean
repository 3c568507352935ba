import GoTree.Grammar.Declaration

/-!
# The grammar of statements

A statement is read together with its end.  Labeled and empty statements have no end of their own.

## Main definitions

* `Grammar.simple`: assignments, sends, steps and expression statements
* `Grammar.ifThenBody`, `Grammar.switchStmt`, `Grammar.selectStmt`, `Grammar.loop`: control
  statements
* `Grammar.stmtBody`: a statement
-/

namespace GoTree

namespace Grammar

open GoTree.Parser

/-- The kinds a simple statement may start with. -/
def startsExpression : Token.KindSet :=
  .ofList
    [.name, .literal .int, .literal .float, .literal .imaginary, .literal .char, .literal .string,
     .keyword .funcKw, .symbol .leftParen, .symbol .leftBracket, .keyword .structKw,
     .keyword .mapKw, .keyword .chanKw, .keyword .interfaceKw, .symbol .plus, .symbol .minus,
     .symbol .star, .symbol .amp, .symbol .caret, .symbol .arrow, .symbol .bang]

/-- The assignment operator a token stands for. -/
def assignOp? : Token.Kind → Option AssignOp
  | .symbol s => AssignOp.ofSymbol? s
  | _ => none

/-- Takes an assignment operator, if one is next. -/
def assignTok? : Parser (Option AssignTok) := do
  match assignOp? (← peekKind) with
  | some op => do
    let pos ← nextPos
    pure (some ⟨pos, op⟩)
  | none => pure none

variable (g : Grammar)

/-! ### Simple statements -/

/-- What follows the operator of an assignment. -/
def assignment (lhs : List Expr) (tok : AssignTok) : Parser Stmt := do
  let rhs ← g.exprList
  pure (.assign lhs tok rhs)

/-- A simple statement that starts with the expression `x` and has no assignment operator. -/
def afterExpr (labelOk : Bool) (x : Expr) : Parser Stmt := do
  match ← peekKind, x with
  | .symbol .colon, .ident label => do
    if labelOk then
      let colon ← nextPos
      let stmt ← g .stmt
      pure (.labeled label colon stmt)
    else pure (.expr x)
  | .symbol .arrow, _ => do
    let arrow ← nextPos
    let value ← g.expr
    pure (.send x arrow value)
  | .symbol .plusPlus, _ => do
    let tokPos ← nextPos
    pure (.step x tokPos .increment)
  | .symbol .minusMinus, _ => do
    let tokPos ← nextPos
    pure (.step x tokPos .decrement)
  | _, _ => pure (.expr x)

/-- A simple statement that starts with `lhs` and has no assignment operator: only one expression
may stand there. -/
def afterExprs (labelOk : Bool) : List Expr → Parser Stmt
  | [x] => g.afterExpr labelOk x
  | _ => failExpected .assignment

/-- **A simple statement**, or a labeled one where labels are allowed. -/
def simple (labelOk : Bool) : Parser Stmt := do
  let lhs ← g.exprList
  match ← assignTok? with
  | some tok => g.assignment lhs tok
  | none => g.afterExprs labelOk lhs

/-! ### Calls, jumps and returns -/

/-- The call of a `go` or `defer` statement. -/
def startedCall (keyword : Keyword) : Parser Expr := do
  let x ← g.expr
  match x.unparen with
  | .call _ _ _ _ _ => pure x
  | _ => failAt (.notCalled keyword) x.start x.stop

/-- The label of a jump, if it has one. -/
def branchLabel : Parser (Option Ident) := do
  if ← isAt .name then some <$> ident else pure none

/-- A jump; only a fall through takes no label. -/
def branchStmt (kind : Branch) : Parser Stmt := do
  let tokPos ← nextPos
  match kind with
  | .fallThrough => pure (.branch tokPos kind none)
  | _ => do
    let label ← branchLabel
    pure (.branch tokPos kind label)

/-- The results of a return, which end at a semicolon or a closing brace. -/
def returnResults : Parser (List Expr) := do
  match ← peekKind with
  | .symbol .semicolon | .symbol .rightBrace => pure []
  | _ => g.exprList

/-! ### Conditionals -/

/-- The condition of an `if` after its initial statement. -/
def conditionAfter (init : Option Stmt) : Parser (Option Stmt × Expr) := do
  if ← isAt (.symbol .leftBrace) then fail .missingCondition
  else
    match ← g.simple false with
    | .expr cond => pure (init, cond)
    | _ => failExpected .booleanExpression

/-- The header of an `if`: an optional initial statement and a condition. -/
def ifHeader : Parser (Option Stmt × Expr) := do
  if ← eat (.symbol .semicolon) then g.conditionAfter none
  else
    let first ← g.simple false
    if ← eat (.symbol .semicolon) then g.conditionAfter (some first)
    else
      match first with
      | .expr cond => pure (none, cond)
      | _ => failExpected .booleanExpression

/-- What follows the body of an `if`: another `if`, a block, or nothing. -/
def elseBranch : Parser (Option Stmt) := do
  if ← eat (.keyword .elseKw) then
    match ← peekKind with
    | .keyword .ifKw => some <$> g .ifThen
    | .symbol .leftBrace => do
      let block ← withEnd g.block
      pure (some (.block block))
    | _ => fail .elseWithoutBranch
  else
    endStatement
    pure none

/-- **An `if` statement** with its end. -/
def ifThenBody : Parser Stmt := do
  let pos ← expect (.keyword .ifKw)
  if ← isAt (.symbol .leftBrace) then fail .missingCondition
  else
    let (init, cond) ← header g.ifHeader
    let body ← g.block
    let orElse ← g.elseBranch
    pure (.ifThen pos init cond body orElse)

/-! ### Switches and selects -/

/-- Whether an expression is the guard of a type switch. -/
def isTypeGuard : Expr → Bool
  | .typeAssert _ _ none _ => true
  | _ => false

/-- Whether a statement makes its switch a type switch. -/
def isTypeSwitchGuard : Stmt → Bool
  | .expr x => isTypeGuard x
  | .assign [_] ⟨_, .define⟩ [x] => isTypeGuard x
  | _ => false

/-- The header of a switch: an optional initial statement and an optional tag or guard. -/
def switchHeader : Parser (Option Stmt × Option Stmt) := do
  if ← eat (.symbol .semicolon) then switchTag none
  else
    let first ← g.simple false
    if ← eat (.symbol .semicolon) then switchTag (some first) else pure (none, some first)
where
  /-- The tag of a switch after its initial statement. -/
  switchTag (init : Option Stmt) : Parser (Option Stmt × Option Stmt) := do
    if ← isAt (.symbol .leftBrace) then pure (init, none)
    else
      let tag ← g.simple false
      pure (init, some tag)

/-- Whether a token kind does not start a clause. -/
def endsClauses (kind : Token.Kind) : Bool :=
  !(kind == .keyword .caseKw || kind == .keyword .defaultKw)

/-- The values of a clause, none for the default clause. -/
def caseValues (isCase : Bool) : Parser (List Expr) :=
  if isCase then g.exprList else pure []

/-- A clause of a switch. -/
def caseClause : Parser CaseClause := do
  let isCase ← isAt (.keyword .caseKw)
  let pos ← nextPos
  let list ← g.caseValues isCase
  let colon ← expect (.symbol .colon)
  let body ← g.stmtList
  pure ⟨pos, list, colon, body⟩

/-- The clauses of a switch between braces. -/
def caseBlock : Parser CaseBlock := do
  let lbrace ← expect (.symbol .leftBrace)
  let clauses ← untilKind endsClauses g.caseClause
  let rbrace ← expect (.symbol .rightBrace)
  pure ⟨lbrace, clauses, rbrace⟩

/-- A switch from its parts. -/
def makeSwitch (pos : Offset) (init tag : Option Stmt) (body : CaseBlock) : Parser Stmt :=
  match tag with
  | none => pure (.switch pos init none body)
  | some guard =>
    if isTypeSwitchGuard guard then pure (.typeSwitch pos init guard body)
    else
      match guard with
      | .expr x => pure (.switch pos init (some x) body)
      | other => failAt .switchOnStatement other.start other.stop

/-- **A switch statement** with its end. -/
def switchStmt : Parser Stmt := do
  let pos ← expect (.keyword .switchKw)
  let (init, tag) ←
    if ← isAt (.symbol .leftBrace) then pure (none, none) else header g.switchHeader
  let body ← withEnd g.caseBlock
  makeSwitch pos init tag body

/-- The communication of a clause, none for the default clause. -/
def clauseComm (isCase : Bool) : Parser (Option Stmt) :=
  if isCase then some <$> g.simple false else pure none

/-- A clause of a select. -/
def commClause : Parser CommClause := do
  let isCase ← isAt (.keyword .caseKw)
  let pos ← nextPos
  let comm ← g.clauseComm isCase
  let colon ← expect (.symbol .colon)
  let body ← g.stmtList
  pure ⟨pos, comm, colon, body⟩

/-- A select statement. -/
def selectStmt : Parser Stmt := do
  let pos ← expect (.keyword .selectKw)
  let lbrace ← expect (.symbol .leftBrace)
  let clauses ← untilKind endsClauses g.commClause
  let rbrace ← expect (.symbol .rightBrace)
  pure (.select pos lbrace clauses rbrace)

/-! ### Loops -/

/-- The header of a loop. -/
inductive LoopHeader where
  /-- An initial statement, a condition and a statement after each round. -/
  | clauses (init cond post : Option Stmt)
  /-- Variables, their operator, and what to range over. -/
  | range (lhs : List Expr) (tok : Option AssignTok) (x : Expr)

/-- The start of a loop header: a simple statement or a whole range clause. -/
def loopStart : Parser (Stmt ⊕ LoopHeader) := do
  if ← eat (.keyword .rangeKw) then
    let x ← g.expr
    pure (.inr (.range [] none x))
  else
    let lhs ← g.exprList
    match ← assignTok? with
    | some tok => do
      if (tok.op == .define || tok.op == .assign) && (← isAt (.keyword .rangeKw)) then
        let _ ← next
        let x ← g.expr
        pure (.inr (.range lhs (some tok) x))
      else .inl <$> g.assignment lhs tok
    | none => .inl <$> g.afterExprs false lhs

/-- The statement before the second semicolon of a loop header, if there is one. -/
def loopCondition : Parser (Option Stmt) := do
  if ← isAt (.symbol .semicolon) then pure none else some <$> g.simple false

/-- The statement after the second semicolon of a loop header, if there is one. -/
def loopPost : Parser (Option Stmt) := do
  if ← isAt (.symbol .leftBrace) then pure none else some <$> g.simple false

/-- The header of a loop after its first semicolon. -/
def loopClauses (init : Option Stmt) : Parser LoopHeader := do
  let cond ← g.loopCondition
  let _ ← expect (.symbol .semicolon)
  let post ← g.loopPost
  pure (.clauses init cond post)

/-- The header of a loop. -/
def loopHeader : Parser LoopHeader := do
  if ← eat (.symbol .semicolon) then g.loopClauses none
  else
    match ← g.loopStart with
    | .inr range => pure range
    | .inl first => do
      if ← eat (.symbol .semicolon) then g.loopClauses (some first)
      else pure (.clauses none (some first) none)

/-- A loop from its parts. -/
def makeLoop (pos : Offset) (head : LoopHeader) (body : Block) : Parser Stmt :=
  match head with
  | .range [] tok x => pure (.rangeLoop pos none none tok x body)
  | .range [key] tok x => pure (.rangeLoop pos (some key) none tok x body)
  | .range [key, value] tok x => pure (.rangeLoop pos (some key) (some value) tok x body)
  | .range (_ :: _ :: extra :: _) _ _ => failAt .extraRangeVariable extra.start extra.stop
  | .clauses init none post => pure (.forLoop pos init none post body)
  | .clauses init (some (.expr cond)) post => pure (.forLoop pos init (some cond) post body)
  | .clauses _ (some _) _ => failExpected .loopExpression

/-- **A loop.** -/
def loop : Parser Stmt := do
  let pos ← expect (.keyword .forKw)
  let head ←
    if ← isAt (.symbol .leftBrace) then pure (.clauses none none none) else header g.loopHeader
  let body ← g.block
  makeLoop pos head body

/-! ### Statements -/

/-- A statement that starts with an expression; a labeled one has its end already. -/
def exprStmt : Parser Stmt := do
  match ← g.simple true with
  | .labeled label colon stmt => pure (.labeled label colon stmt)
  | stmt => do
    endStatement
    pure stmt

/-- A statement that starts with a keyword and is followed by its end. -/
def keywordStmt : Keyword → Parser Stmt
  | .constKw => .decl <$> g.genDecl .constants
  | .typeKw => .decl <$> g.genDecl .types
  | .varKw => .decl <$> g.genDecl .variables
  | .goKw => do
    let pos ← nextPos
    let call ← g.startedCall .goKw
    pure (.goCall pos call)
  | .deferKw => do
    let pos ← nextPos
    let call ← g.startedCall .deferKw
    pure (.deferCall pos call)
  | .returnKw => do
    let pos ← nextPos
    let results ← g.returnResults
    pure (.returns pos results)
  | .breakKw => branchStmt .breakOut
  | .continueKw => branchStmt .continueOn
  | .gotoKw => branchStmt .goto
  | .fallthroughKw => branchStmt .fallThrough
  | .selectKw => g.selectStmt
  | .forKw => g.loop
  | _ => failExpected .statement

/-- An explicit or implied empty statement at a semicolon. -/
def emptyStmt : Parser Stmt := do
  let token ← next
  pure (.empty ⟨token.start, token.text.isEmpty⟩)

/-- **A statement** with its end. -/
def stmtBody : Parser Stmt := do
  let token ← peek
  match token.kind with
  | .keyword .ifKw => g .ifThen
  | .keyword .switchKw => g.switchStmt
  | .symbol .semicolon => emptyStmt
  | .symbol .rightBrace => pure (.empty ⟨token.start, true⟩)
  | .symbol .leftBrace => .block <$> withEnd g.block
  | kind =>
    if startsExpression.contains kind then g.exprStmt
    else
      match kind with
      | .keyword k => withEnd (g.keywordStmt k)
      | _ => failExpected .statement

end Grammar

end GoTree
