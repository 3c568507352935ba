import GoTree.Tree.Node

/-!
# Entries of the side tables

Beside the tree stand two tables: the comments of the file, with and without their delimiters, and
the tokens of the file, each with its class.  Both give lines and columns.

## Main definitions

* `LineRange`: a stretch of text by lines and columns
* `CommentEntry`, `CommentEntry.ofText`: a comment with and without its delimiters
* `TokenClass`, `TokenEntry`: a token and its class
-/

namespace GoTree

/-- A stretch of text by the lines and columns of its start and end. -/
structure LineRange where
  startLine : Nat
  startColumn : Nat
  endLine : Nat
  endColumn : Nat
deriving DecidableEq, Repr

/-- A range as four numbers between colons. -/
def LineRange.show (range : LineRange) : String :=
  toString range.startLine ++ ":" ++ toString range.startColumn ++ ":" ++ toString range.endLine
    ++ ":" ++ toString range.endColumn

/-- A comment, its text without delimiters, and where both stand. -/
structure CommentEntry where
  text : String
  contentText : String
  range : LineRange
  contentRange : LineRange
deriving DecidableEq, Repr

namespace CommentEntry

/-- A text without the opening of a block comment. -/
def dropOpening : Text → Text
  | '/' :: '*' :: rest => rest
  | t => t

/-- A text without the closing of a block comment. -/
def dropClosing (t : Text) : Text :=
  if ['*', '/'].isSuffixOf t then t.take (t.length - 2) else t

/-- **The entry of a comment** that stands at `range`.  A line comment loses its two slashes, any
other its opening and its closing. -/
def ofText (text : String) (range : LineRange) : CommentEntry :=
  match text.toList with
  | '/' :: '/' :: line =>
    ⟨text, String.ofList line, range, { range with startColumn := range.startColumn + 2 }⟩
  | t =>
    ⟨text, String.ofList (dropClosing (dropOpening t)), range,
      { range with startColumn := range.startColumn + 2, endColumn := range.endColumn - 2 }⟩

end CommentEntry

/-- The class of a token. -/
inductive TokenClass where
  | keyword | stringLiteral | other
deriving DecidableEq, Repr

namespace TokenClass

/-- What a class is called. -/
def name : TokenClass → String
  | .keyword => "KEYWORD"
  | .stringLiteral => "STRING_LITERAL"
  | .other => "OTHER"

/-- The class of a leaf, read off its tags. -/
def ofNode (node : Node) : TokenClass :=
  if node.hasTag .keyword then .keyword
  else if node.hasTag .stringLiteral then .stringLiteral
  else .other

end TokenClass

/-- A token, where it stands, and its class. -/
structure TokenEntry where
  text : String
  range : LineRange
  type : TokenClass
deriving DecidableEq, Repr

end GoTree
