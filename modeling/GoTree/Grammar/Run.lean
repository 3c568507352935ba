import GoTree.Grammar.Statement
import GoTree.Unicode.Blank

/-!
# Reading files

The recursive rules run with a bound on their nesting.  Between two rules that take a token there
are never more than three that do not, so a bound linear in the number of tokens is never met.

## Main definitions

* `Grammar.body`: the rules, each as a function of all of them
* `Grammar.run`: the rules with a bound on their nesting
* `commentGroups`: the comments of a text in groups
* `parse`: a text as a file
-/

namespace GoTree

namespace Grammar

/-- **Each recursive rule**, given readers for the rules it calls. -/
def body (g : Grammar) : Grammar
  | .expr least => g.exprBody least
  | .unary => g.unaryBody
  | .type => g.typeBody
  | .literal ty => g.literalBody ty
  | .stmt => g.stmtBody
  | .ifThen => g.ifThenBody

/-- The rules with at most `n` calls of rules inside each other. -/
def run : Nat → Grammar
  | 0, _ => Parser.exhausted
  | n + 1, rule => body (run n) rule

/-- A nesting bound that no stream of `tokens` tokens meets. -/
def nesting (tokens : Nat) : Nat :=
  8 * tokens + 8

/-- The package clause. -/
def packageClause : Parser (Offset × Ident) := do
  let package ← Parser.expect (.keyword .packageKw)
  let name ← Parser.ident
  Parser.endStatement
  pure (package, name)

/-- **The package clause and the declarations of a file.** -/
def file (g : Grammar) : Parser (Offset × Ident × List Decl) := do
  let (package, name) ← packageClause
  let decls ← Parser.untilKind (· == .endOfFile) (withEnd g.decl)
  pure (package, name, decls)

end Grammar

/-- Whether only blanks with at most one line feed stand between two comments. -/
def adjacentComments (t : Text) (a b : Token) : Bool :=
  match t.slice? a.stop b.start with
  | some between => between.all Unicode.isBlank && between.count '\n' ≤ 1
  | none => false

/-- A comment as stored: without carriage returns. -/
def Comment.ofToken (token : Token) : Comment :=
  ⟨token.start, String.ofList token.text.withoutReturns⟩

/-- **The comments of a text in groups:** the longest runs of adjacent comments. -/
def commentGroups (t : Text) (comments : List Token) : List CommentGroup :=
  (comments.splitBy (adjacentComments t)).map fun group => ⟨group.map Comment.ofToken⟩

/-- **Reads a text as a Go file**, up to the first syntax error. -/
def parse (t : Text) : Except SyntaxError File :=
  let stream := TokenStream.ofText t
  let grammar := Grammar.run (Grammar.nesting stream.tokens.length)
  match (Grammar.file grammar ⟨stream.tokens, 0⟩).1 with
  | .ok (package, name, decls) =>
    .ok ⟨package, name, decls, commentGroups t stream.comments, t.size⟩
  | .error e => .error e

end GoTree
