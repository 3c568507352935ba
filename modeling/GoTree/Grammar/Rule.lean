import GoTree.Grammar.Parser
import GoTree.Syntax.Span

/-!
# Recursive rules

The rules through which the grammar calls itself.  Each rule of the grammar is written as a plain
function of the readers for these; `Grammar.Run` ties the knot with a bound on the nesting.

## Main definitions

* `Rule`, `Rule.Result`: the recursive rules and what they read
* `Grammar`: a reader for each recursive rule
* `Parser.ident`, `Parser.identList`, `Parser.basicLit`: the rules without recursion
-/

namespace GoTree

/-- The rules through which the grammar calls itself. -/
inductive Rule where
  /-- An expression whose operators bind at least as tightly as `least`. -/
  | expr (least : Nat)
  /-- An operand with the operators before it. -/
  | unary
  /-- A type, if one starts here. -/
  | type
  /-- The braces of a composite literal, after its type. -/
  | literal (ty : Option Expr)
  /-- A statement with its end. -/
  | stmt
  /-- An `if` statement with its end. -/
  | ifThen

/-- What a rule reads. -/
abbrev Rule.Result : Rule → Type
  | .expr _ => Expr
  | .unary => Expr
  | .type => Option Expr
  | .literal _ => Expr
  | .stmt => Stmt
  | .ifThen => Stmt

/-- A reader for each recursive rule. -/
abbrev Grammar := (rule : Rule) → Parser rule.Result

namespace Grammar

/-- A whole expression. -/
def expr (g : Grammar) : Parser Expr :=
  g (.expr 1)

/-- A list of expressions. -/
def exprList (g : Grammar) : Parser (List Expr) :=
  Parser.commaList (fun _ => false) g.expr

end Grammar

namespace Parser

/-- A name. -/
def ident : Parser Ident := do
  if ← isAt .name then
    let token ← next
    pure ⟨token.start, String.ofList token.text⟩
  else failExpected .identifier

/-- Names separated by commas. -/
def identList : Parser (List Ident) :=
  commaList (fun _ => false) ident

/-- The stored text of a literal: raw strings lose their carriage returns. -/
def storedLiteral (t : Text) : String :=
  String.ofList (if t.head? = some '\x60' then t.withoutReturns else t)

/-- A literal. -/
def basicLit : Parser BasicLit := do
  match ← peekKind with
  | .literal kind =>
    let token ← next
    pure ⟨token.start, kind, storedLiteral token.text⟩
  | _ => failExpected .literal

end Parser

end GoTree
