import GoTree.Token.Tokenizer

/-!
# Token streams

The grammar reads the tokens that carry meaning.  **Automatic
semicolons:** where a line breaks right after a token that can end a statement, the stream holds a
semicolon without characters.  A line feed, a comment that reaches over lines and the end of the
text break a line.  The stream ends with a token for the end of the text, and the comments are kept
apart.

## Main definitions

* `Token.lineEnd`, `Token.breaksLine`: line breaks
* `Token.significant`: the tokens the grammar reads
* `TokenStream`, `TokenStream.ofText`: the tokens and comments of a text
-/

namespace GoTree

namespace Token

/-- A semicolon that stands for a line break at `offset`. -/
def lineEnd (offset : Nat) : Token :=
  ⟨.symbol .semicolon, offset, []⟩

/-- Whether a token breaks the line: a line feed, or a comment with a line feed in it. -/
def breaksLine (token : Token) : Bool :=
  token.kind == .newline || (token.kind == .blockComment && token.text.contains '\n')

/-- **The tokens the grammar reads.**  `pending` says whether the last of them can end a statement
and no line has broken since; `size` is the offset of the end of the text. -/
def significant (size : Nat) : (pending : Bool) → List Token → List Token
  | pending, [] => if pending then [lineEnd size, endOfFile size] else [endOfFile size]
  | pending, token :: rest =>
    if token.kind.isTrivia then
      if pending && token.breaksLine then lineEnd token.start :: significant size false rest
      else significant size pending rest
    else token :: significant size token.kind.endsStatement rest

end Token

/-- What the grammar reads of a text, and its comments. -/
structure TokenStream where
  tokens : List Token
  comments : List Token
deriving DecidableEq, Repr

/-- The stream of a text. -/
def TokenStream.ofText (t : Text) : TokenStream where
  tokens := Token.significant t.size false (Token.ofText t)
  comments := (Token.ofText t).filter fun token => token.kind.isComment

namespace Token

@[simp]
theorem stop_lineEnd (offset : Nat) : (lineEnd offset).stop = offset := by
  simp [stop, lineEnd]

end Token

end GoTree
