import GoTree.Token.Stream

/-!
# Syntax errors

Why a text is no Go file.  A syntax error names its cause and the bytes it is about; the wording is
made from the cause.

## Main definitions

* `Expectation`: what the grammar would have accepted
* `Cause`, `Cause.message`: why reading stopped, and how that is put into words
* `SyntaxError`: a cause and the bytes it is about
-/

namespace GoTree

/-- What the grammar would have accepted at a place. -/
inductive Expectation where
  | token (kind : Token.Kind)
  | identifier | literal | importPath | declaration | semicolon | type | equals | expression
  | selector | operand | statement | assignment | booleanExpression | loopExpression
  | field | method
deriving DecidableEq, Repr

namespace Expectation

/-- A spelling between single quotes. -/
def quoted (spelling : String) : String :=
  "'" ++ spelling ++ "'"

/-- An expectation in words. -/
def describe : Expectation → String
  | .token kind =>
    match kind.spelling? with
    | some spelling => quoted spelling
    | none => kind.title
  | .identifier => "identifier"
  | .literal => "literal"
  | .importPath => "import path"
  | .declaration => "declaration"
  | .semicolon => "';' or newline"
  | .type => "type"
  | .equals => "'='"
  | .expression => "expression"
  | .selector => "selector or type assertion"
  | .operand => "operand"
  | .statement => "statement"
  | .assignment => "':=' or '='"
  | .booleanExpression => "boolean expression"
  | .loopExpression => "boolean or range expression"
  | .field => "field name or embedded type"
  | .method => "method or embedded interface"

end Expectation

/-- A token in words, as the thing found in place of the expected one. -/
def Token.describe (token : Token) : String :=
  if token.kind = .endOfFile then "end of file"
  else if token.kind = .symbol .semicolon ∧ token.text = [] then "newline"
  else Expectation.quoted (String.ofList token.text)

/-- Why reading stopped. -/
inductive Cause where
  | expected (what : Expectation) (found : Token)
  | typeParameters
  | missingCondition
  | elseWithoutBranch
  | missingSliceIndex
  | notCalled (keyword : Keyword)
  | switchOnStatement
  | extraRangeVariable
  | mixedParameters
  /-- The bound on nesting was met, which no text does. -/
  | exhausted
deriving DecidableEq, Repr

/-- A cause in words. -/
def Cause.message : Cause → String
  | .expected what found => "expected " ++ what.describe ++ ", found " ++ found.describe
  | .typeParameters => "type parameters are not supported"
  | .missingCondition => "missing condition in if statement"
  | .elseWithoutBranch => "else must be followed by if or statement block"
  | .missingSliceIndex => "middle and final index required in 3-index slice"
  | .notCalled keyword => "function must be invoked in " ++ keyword.spelling ++ " statement"
  | .switchOnStatement => "switch expression must be an expression"
  | .extraRangeVariable => "range clause permits at most two iteration variables"
  | .mixedParameters => "mixed named and unnamed parameters"
  | .exhausted => "nesting too deep"

/-- A cause and the bytes it is about. -/
structure SyntaxError where
  cause : Cause
  start : Nat
  stop : Nat
deriving DecidableEq, Repr

/-- The error in words. -/
def SyntaxError.message (e : SyntaxError) : String :=
  e.cause.message

end GoTree
