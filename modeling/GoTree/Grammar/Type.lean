import GoTree.Grammar.Rule
import GoTree.Token.Set

/-!
# The grammar of types

Types, and the lists of fields in structs, interfaces and signatures.

## Main definitions

* `Grammar.typeBody`: a type, if one starts here
* `Grammar.parameters`, `Grammar.signature`: what follows the name of a function
-/

namespace GoTree

namespace Grammar

open GoTree.Parser

variable (g : Grammar)

/-- A type that must be there. -/
def someType : Parser Expr := do
  match ← g .type with
  | some ty => pure ty
  | none => failExpected .type

/-- A type name, plain or qualified by a package. -/
def typeName : Parser Expr := do
  let name ← ident
  if (← isAt (.symbol .dot)) && (← peekSecond) == .name then
    let _ ← next
    let sel ← ident
    pure (.selector (.ident name) sel)
  else pure (.ident name)

/-- An array or slice type. -/
def arrayType : Parser Expr := do
  let lbrack ← expect (.symbol .leftBracket)
  let len ← arrayLength
  let _ ← expect (.symbol .rightBracket)
  let elt ← g.someType
  pure (.arrayType lbrack len elt)
where
  /-- The length of an array, absent in a slice type. -/
  arrayLength : Parser (Option Expr) := do
    match ← peekKind with
    | .symbol .rightBracket => pure none
    | .symbol .ellipsis => do
      let pos ← nextPos
      pure (some (.ellipsis pos none))
    | _ => do
      let len ← nested g.expr
      pure (some len)

/-- A map type. -/
def mapType : Parser Expr := do
  let pos ← expect (.keyword .mapKw)
  let _ ← expect (.symbol .leftBracket)
  let key ← g.someType
  let _ ← expect (.symbol .rightBracket)
  let value ← g.someType
  pure (.mapType pos key value)

/-- A channel type, with an arrow before or after its keyword if it has a direction. -/
def chanType : Parser Expr := do
  if ← isAt (.symbol .arrow) then
    let arrow ← nextPos
    let _ ← expect (.keyword .chanKw)
    let value ← g.someType
    pure (.chanType arrow (some arrow) .receive value)
  else
    let begin ← expect (.keyword .chanKw)
    if ← isAt (.symbol .arrow) then
      let arrow ← nextPos
      let value ← g.someType
      pure (.chanType begin (some arrow) .send value)
    else
      let value ← g.someType
      pure (.chanType begin none .both value)

/-- Whether a token kind closes a body in braces, or ends the text. -/
def closesBraces (kind : Token.Kind) : Bool :=
  kind == .symbol .rightBrace || kind == .endOfFile

/-- A parser followed by the end of a statement. -/
def withEnd {α : Type} (p : Parser α) : Parser α := do
  let a ← p
  endStatement
  pure a

/-- Fields or methods between braces, each with its end. -/
def fieldBlock (item : Parser Field) : Parser FieldList := do
  let opening ← expect (.symbol .leftBrace)
  let list ← untilKind closesBraces (withEnd item)
  let closing ← expect (.symbol .rightBrace)
  pure ⟨some opening, list, some closing⟩

/-- The kinds that follow the name of an embedded field. -/
def followsEmbedded : Token.KindSet :=
  .ofList [.symbol .dot, .literal .string, .symbol .semicolon, .symbol .rightBrace]

/-- The names and type of a field of a struct. -/
def fieldBody : Parser (List Ident × Expr) := do
  match ← peekKind with
  | .symbol .star => do
    let star ← nextPos
    let x ← typeName
    pure ([], .star star x)
  | .name => do
    if followsEmbedded.contains (← peekSecond) then
      let ty ← typeName
      pure ([], ty)
    else
      let names ← identList
      let ty ← g.someType
      pure (names, ty)
  | _ => failExpected .field

/-- A field of a struct, with its tag. -/
def fieldDecl : Parser Field := do
  let (names, ty) ← g.fieldBody
  if ← isAt (.literal .string) then
    let tag ← basicLit
    pure ⟨names, ty, some tag⟩
  else pure ⟨names, ty, none⟩

/-- A struct type. -/
def structType : Parser Expr := do
  let pos ← expect (.keyword .structKw)
  let fields ← fieldBlock g.fieldDecl
  pure (.structType pos fields)

/-- A parameter type, which three points make variadic; absent if none starts here. -/
def variadicType : Parser (Option Expr) := do
  if ← isAt (.symbol .ellipsis) then
    let pos ← nextPos
    let elt ← g.someType
    pure (some (.ellipsis pos (some elt)))
  else g .type

/-- A parameter type that must be there. -/
def someVariadicType : Parser Expr := do
  match ← g.variadicType with
  | some ty => pure ty
  | none => failExpected .type

/-- A field without names. -/
def unnamed (ty : Expr) : Field :=
  ⟨[], ty, none⟩

/-- Reads entries of a parameter list as names; an entry of another form mixes named with unnamed
parameters. -/
def entryNames : List Expr → Parser (List Ident)
  | [] => pure []
  | .ident name :: rest => do
    let names ← entryNames rest
    pure (name :: names)
  | other :: _ => failAt .mixedParameters other.start other.stop

/-- Names and their type, after the first group of parameters. -/
def parameterGroup : Parser Field := do
  let names ← identList
  let ty ← g.someVariadicType
  pure ⟨names, ty, none⟩

/-- Whether a token kind closes a parameter list. -/
def closesParameters (kind : Token.Kind) : Bool :=
  kind == .symbol .rightParen

/-- **The parameters between parentheses.**  Entries are read as types first.  If a type follows
them, they were the names of the first group, and every later group is names and a type; otherwise
they are the types of unnamed parameters. -/
def parameterFields : Parser (List Field) := do
  if ← isAt (.symbol .rightParen) then pure []
  else
    let entries ← commaList closesParameters g.someVariadicType
    match ← g.variadicType with
    | some ty => do
      let names ← entryNames entries
      if ← eat (.symbol .comma) then
        let groups ← commaList closesParameters g.parameterGroup
        pure (⟨names, ty, none⟩ :: groups)
      else pure [⟨names, ty, none⟩]
    | none => pure (entries.map unnamed)

/-- A parameter list with its parentheses. -/
def parameters : Parser FieldList := do
  let opening ← expect (.symbol .leftParen)
  let list ← g.parameterFields
  let closing ← expect (.symbol .rightParen)
  pure ⟨some opening, list, some closing⟩

/-- Parameters and results, without a keyword before them. -/
def signature (func : Option Offset) : Parser FuncType := do
  let params ← g.parameters
  if ← isAt (.symbol .leftParen) then
    let results ← g.parameters
    pure ⟨func, params, some results⟩
  else
    let result ← g .type
    pure ⟨func, params, result.map fun ty => ⟨none, [unnamed ty], none⟩⟩

/-- A method or an embedded interface. -/
def methodSpec : Parser Field := do
  if ← isAt .name then
    if (← peekSecond) == .symbol .leftParen then
      let name ← ident
      let ty ← g.signature none
      pure ⟨[name], .funcType ty, none⟩
    else
      let ty ← typeName
      pure (unnamed ty)
  else failExpected .method

/-- An interface type. -/
def interfaceType : Parser Expr := do
  let pos ← expect (.keyword .interfaceKw)
  let methods ← fieldBlock g.methodSpec
  pure (.interfaceType pos methods)

/-- **A type, if one starts here.** -/
def typeBody : Parser (Option Expr) := do
  match ← peekKind with
  | .name => some <$> typeName
  | .symbol .leftBracket => some <$> g.arrayType
  | .keyword .structKw => some <$> g.structType
  | .symbol .star => do
    let star ← nextPos
    let x ← g.someType
    pure (some (.star star x))
  | .keyword .funcKw => do
    let func ← nextPos
    let ty ← g.signature (some func)
    pure (some (.funcType ty))
  | .keyword .interfaceKw => some <$> g.interfaceType
  | .keyword .mapKw => some <$> g.mapType
  | .keyword .chanKw => some <$> g.chanType
  | .symbol .arrow => some <$> g.chanType
  | .symbol .leftParen => do
    let lparen ← nextPos
    let x ← g.someType
    let rparen ← expect (.symbol .rightParen)
    pure (some (.paren lparen x rparen))
  | _ => pure none

end Grammar

end GoTree
