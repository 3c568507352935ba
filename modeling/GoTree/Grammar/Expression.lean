import GoTree.Grammar.Type

/-!
# The grammar of expressions

Binary operators group by precedence and to the left.  An operand is followed by any number of
selectors, indices, calls and composite literals.

## Main definitions

* `Grammar.exprBody`: an expression whose operators bind tightly enough
* `Grammar.unaryBody`: an operand with the operators before it
* `Grammar.primary`, `Grammar.operand`: operands and what may follow them
* `Grammar.literalBody`: the braces of a composite literal
-/

namespace GoTree

namespace Grammar

open GoTree.Parser

/-- The statements between the braces of a block end before one of these kinds. -/
def endsStatements : Token.KindSet :=
  .ofList [.symbol .rightBrace, .keyword .caseKw, .keyword .defaultKw, .endOfFile]

variable (g : Grammar)

/-- Statements up to the end of their block or clause. -/
def stmtList : Parser (List Stmt) :=
  untilKind endsStatements.contains (g .stmt)

/-- Statements between braces. -/
def block : Parser Block := do
  let lbrace ← expect (.symbol .leftBrace)
  let list ← g.stmtList
  let rbrace ← expect (.symbol .rightBrace)
  pure ⟨lbrace, list, rbrace⟩

/-- **Whether a brace after `x` opens a composite literal.**  In the header of a control statement
only the types that cannot be values qualify. -/
def isLiteralType (x : Expr) (level : Int) : Bool :=
  match x.unparen with
  | .ident _ => 0 ≤ level
  | .index _ _ _ _ => 0 ≤ level
  | .selector (.ident _) _ => 0 ≤ level
  | .arrayType _ _ _ => true
  | .structType _ _ => true
  | .mapType _ _ _ => true
  | _ => false

/-- A function type, or a function literal when a body follows. -/
def funcTypeOrLit : Parser Expr := do
  let func ← expect (.keyword .funcKw)
  let ty ← g.signature (some func)
  if ← isAt (.symbol .leftBrace) then
    let body ← nested g.block
    pure (.funcLit ty body)
  else pure (.funcType ty)

/-- A type assertion on `x`, or the guard of a type switch. -/
def typeAssert (x : Expr) : Parser Expr := do
  let lparen ← expect (.symbol .leftParen)
  if ← eat (.keyword .typeKw) then
    let rparen ← expect (.symbol .rightParen)
    pure (.typeAssert x lparen none rparen)
  else
    let ty ← g.someType
    let rparen ← expect (.symbol .rightParen)
    pure (.typeAssert x lparen (some ty) rparen)

/-- What stands between the brackets after an operand. -/
inductive Brackets where
  | index (i : Expr)
  | slice (low high max : Option Expr) (slice3 : Bool)

/-- A bound of a slice, absent before a colon or the closing bracket. -/
def sliceBound : Parser (Option Expr) := do
  match ← peekKind with
  | .symbol .colon | .symbol .rightBracket => pure none
  | _ => some <$> g.expr

/-- The bounds of a slice after its first colon. -/
def sliceBounds (low : Option Expr) : Parser Brackets := do
  let high ← g.sliceBound
  if ← eat (.symbol .colon) then
    let max ← g.sliceBound
    if high.isNone || max.isNone then fail .missingSliceIndex
    else pure (.slice low high max true)
  else pure (.slice low high none false)

/-- An index, or up to three bounds between colons. -/
def brackets : Parser Brackets := do
  if ← eat (.symbol .colon) then g.sliceBounds none
  else
    let low ← g.expr
    if ← eat (.symbol .colon) then g.sliceBounds (some low) else pure (.index low)

/-- An index or slice expression on `x`. -/
def indexOrSlice (x : Expr) : Parser Expr := do
  let lbrack ← expect (.symbol .leftBracket)
  let inner ← nested g.brackets
  let rbrack ← expect (.symbol .rightBracket)
  match inner with
  | .index i => pure (.index x lbrack i rbrack)
  | .slice low high max slice3 => pure (.slice x lbrack low high max slice3 rbrack)

/-- Whether a token kind closes the arguments of a call, or ends the text. -/
def closesArguments (kind : Token.Kind) : Bool :=
  kind == .symbol .rightParen || kind == .endOfFile

/-- An argument and the offset of the three points after it. -/
def argument : Parser (Expr × Option Offset) := do
  let x ← g.expr
  if ← isAt (.symbol .ellipsis) then
    let pos ← nextPos
    pure (x, some pos)
  else pure (x, none)

/-- A call of `callee`.  Of several arguments followed by three points, the last is the one
recorded. -/
def call (callee : Expr) : Parser Expr := do
  let lparen ← expect (.symbol .leftParen)
  let args ← nested (commaList closesArguments g.argument)
  let rparen ← expect (.symbol .rightParen)
  pure (.call callee lparen (args.map Prod.fst) (args.filterMap Prod.snd).getLast? rparen)

/-- An element of a composite literal, or its key or value; a nested literal may leave out its
type. -/
def elementValue : Parser Expr := do
  if ← isAt (.symbol .leftBrace) then g (.literal none) else g.expr

/-- An element of a composite literal, with its key. -/
def element : Parser Expr := do
  let key ← g.elementValue
  if ← isAt (.symbol .colon) then
    let colon ← nextPos
    let value ← g.elementValue
    pure (.keyValue key colon value)
  else pure key

/-- **The braces of a composite literal** of type `ty`. -/
def literalBody (ty : Option Expr) : Parser Expr := do
  let lbrace ← expect (.symbol .leftBrace)
  let elts ← nested (commaList closesBraces g.element)
  let rbrace ← expect (.symbol .rightBrace)
  pure (.compositeLit ty lbrace elts rbrace)

/-- An operand. -/
def operand : Parser Expr := do
  match ← peekKind with
  | .name => do
    let name ← ident
    pure (.ident name)
  | .literal _ => do
    let lit ← basicLit
    pure (.basicLit lit)
  | .symbol .leftParen => do
    let lparen ← nextPos
    let x ← nested g.expr
    let rparen ← expect (.symbol .rightParen)
    pure (.paren lparen x rparen)
  | .keyword .funcKw => g.funcTypeOrLit
  | .symbol .leftBracket | .symbol .arrow => g.someType
  | .keyword .structKw | .keyword .mapKw | .keyword .chanKw | .keyword .interfaceKw => g.someType
  | _ => failExpected .expression

/-- What follows a point after `x`. -/
def selectorOrAssert (x : Expr) : Parser Expr := do
  match ← peekKind with
  | .name => do
    let sel ← ident
    pure (.selector x sel)
  | .symbol .leftParen => g.typeAssert x
  | _ => failExpected .selector

/-- `x` with one more selector, index, call or literal, if one follows. -/
def suffix (x : Expr) : Parser (Option Expr) := do
  match ← peekKind with
  | .symbol .dot => do
    let _ ← next
    some <$> g.selectorOrAssert x
  | .symbol .leftBracket => some <$> g.indexOrSlice x
  | .symbol .leftParen => some <$> g.call x
  | .symbol .leftBrace => do
    if isLiteralType x (← level) then some <$> g (.literal (some x)) else pure none
  | _ => pure none

/-- An operand and all that follows it. -/
def primary : Parser Expr := do
  let x ← g.operand
  extend g.suffix x

/-- The operator a token before an operand stands for.  An arrow before the channel keyword belongs
to a type. -/
def unaryOp? (kind second : Token.Kind) : Option UnaryOp :=
  match kind with
  | .symbol .arrow => if second = .keyword .chanKw then none else some .receive
  | .symbol s => UnaryOp.ofSymbol? s
  | _ => none

/-- **An operand with the operators before it.** -/
def unaryBody : Parser Expr := do
  match unaryOp? (← peekKind) (← peekSecond) with
  | some op => do
    let opPos ← nextPos
    let x ← g .unary
    pure (.unary opPos op x)
  | none => do
    if ← isAt (.symbol .star) then
      let star ← nextPos
      let x ← g .unary
      pure (.star star x)
    else g.primary

/-- The binary operator a token stands for. -/
def binaryOp? : Token.Kind → Option BinaryOp
  | .symbol s => BinaryOp.ofSymbol? s
  | _ => none

/-- `x` with one more operator that binds at least as tightly as `least` and its right operand, if
one follows. -/
def operation (least : Nat) (x : Expr) : Parser (Option Expr) := do
  match binaryOp? (← peekKind) with
  | some op =>
    if op.precedence < least then pure none
    else do
      let opPos ← nextPos
      let y ← g (.expr (op.precedence + 1))
      pure (some (.binary x opPos op y))
  | none => pure none

/-- **An expression** whose operators bind at least as tightly as `least`. -/
def exprBody (least : Nat) : Parser Expr := do
  let x ← g .unary
  extend (g.operation least) x

end Grammar

end GoTree
