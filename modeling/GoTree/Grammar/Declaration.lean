import GoTree.Grammar.Expression

/-!
# The grammar of declarations

## Main definitions

* `Grammar.genDecl`: import, constant, type and variable declarations
* `Grammar.funcDecl`: functions and methods
* `Grammar.decl`: a top-level declaration
-/

namespace GoTree

namespace Grammar

open GoTree.Parser

variable (g : Grammar)

/-- The local name of an import: a name or a point. -/
def importName : Parser (Option Ident) := do
  match ← peekKind with
  | .name => some <$> ident
  | .symbol .dot => do
    let pos ← nextPos
    pure (some ⟨pos, Symbol.dot.spelling⟩)
  | _ => pure none

/-- An imported path. -/
def importSpec : Parser Spec := do
  let name ← importName
  if ← isAt (.literal .string) then
    let path ← basicLit
    pure (.imported name path)
  else failExpected .importPath

/-- The values after an equals sign, if there is one. -/
def specValues : Parser (List Expr) := do
  if ← eat (.symbol .assign) then g.exprList else pure []

/-- Constants or variables.  A variable needs a type or values, and a constant with a type needs
values. -/
def valueSpec (kind : DeclKind) : Parser Spec := do
  let names ← identList
  let ty ← g .type
  let values ← g.specValues
  if kind = .variables ∧ ty.isNone ∧ values.isEmpty then failExpected .type
  else if kind = .constants ∧ ty.isSome ∧ values.isEmpty then failExpected .equals
  else pure (.value names ty values)

/-- A type definition or alias. -/
def typeSpec : Parser Spec := do
  let name ← ident
  if ← isAt (.symbol .assign) then
    let assign ← nextPos
    let ty ← g.someType
    pure (.type name (some assign) ty)
  else
    let ty ← g.someType
    pure (.type name none ty)

/-- A specification of the form its declaration asks for. -/
def spec : DeclKind → Parser Spec
  | .imports => importSpec
  | .constants => g.valueSpec .constants
  | .variables => g.valueSpec .variables
  | .types => g.typeSpec

/-- **A general declaration**, with its specifications between parentheses or a single one without
them. -/
def genDecl (kind : DeclKind) : Parser GenDecl := do
  let tokPos ← nextPos
  if ← isAt (.symbol .leftParen) then
    let lparen ← nextPos
    let specs ← untilKind closesArguments (withEnd (g.spec kind))
    let rparen ← expect (.symbol .rightParen)
    pure ⟨tokPos, kind, some lparen, specs, some rparen⟩
  else
    let spec ← g.spec kind
    pure ⟨tokPos, kind, none, [spec], none⟩

/-- A receiver, if one stands before the name of a function. -/
def receiver : Parser (Option FieldList) := do
  if ← isAt (.symbol .leftParen) then some <$> g.parameters else pure none

/-- The body of a function, if it has one. -/
def funcBody : Parser (Option Block) := do
  if ← isAt (.symbol .leftBrace) then some <$> g.block else pure none

/-- **A function or method declaration.** -/
def funcDecl : Parser FuncDecl := do
  let func ← expect (.keyword .funcKw)
  let recv ← g.receiver
  let name ← ident
  if ← isAt (.symbol .leftBracket) then fail .typeParameters
  else
    let ty ← g.signature none
    let body ← g.funcBody
    pure ⟨func, recv, name, ty, body⟩

/-- The general declaration a token opens. -/
def declKind? : Token.Kind → Option DeclKind
  | .keyword k => DeclKind.ofKeyword? k
  | _ => none

/-- **A top-level declaration.** -/
def decl : Parser Decl := do
  if ← isAt (.keyword .funcKw) then .func <$> g.funcDecl
  else
    match declKind? (← peekKind) with
    | some kind => .gen <$> g.genDecl kind
    | none => failExpected .declaration

end Grammar

end GoTree
