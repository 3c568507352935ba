import GoTree.Token.Keyword
import GoTree.Token.Symbol

/-!
# Kinds of tokens

Every stretch of a text is a symbol, a keyword, a literal, a name, a blank, a comment, or something
that fits none of these.  The end of the text counts as a kind of its own.

## Main definitions

* `Literal`: the classes of literals
* `Token.Kind` with `Kind.title` and `Kind.spelling?`
* `Kind.isKeyword`, `Kind.isTrivia`, `Kind.isLiteral`, `Kind.endsStatement`: the classes of kinds
-/

namespace GoTree

/-- The class of a literal. -/
inductive Literal where
  | int | float | imaginary | char | string
deriving DecidableEq, Repr

/-- What a literal class is called in listings. -/
def Literal.name : Literal → String
  | .int => "INT_NUMBER"
  | .float => "FLOAT_NUMBER"
  | .imaginary => "IMAGINARY_NUMBER"
  | .char => "CHAR"
  | .string => "STRING"

namespace Token

/-- What a stretch of text is. -/
inductive Kind where
  | symbol (s : Symbol)
  | keyword (k : Keyword)
  | literal (l : Literal)
  | name
  | whitespace
  | newline
  | lineComment
  | blockComment
  /-- A malformed literal, an unclosed comment or a stray character. -/
  | unknown
  | endOfFile
deriving DecidableEq, Repr

namespace Kind

/-- What a kind is called in listings. -/
def title : Kind → String
  | .symbol s => s.name
  | .keyword k => k.name
  | .literal l => l.name
  | .name => "NAME"
  | .whitespace => "WHITESPACE"
  | .newline => "NEWLINE"
  | .lineComment => "LINE_COMMENT"
  | .blockComment => "BLOCK_COMMENT"
  | .unknown => "UNKNOWN"
  | .endOfFile => "EOF"

/-- The one spelling of a symbol or keyword; other kinds have many. -/
def spelling? : Kind → Option String
  | .symbol s => some s.spelling
  | .keyword k => some k.spelling
  | _ => none

/-- Whether the kind is a keyword. -/
def isKeyword : Kind → Bool
  | .keyword _ => true
  | _ => false

/-- Whether the kind is a literal. -/
def isLiteral : Kind → Bool
  | .literal _ => true
  | _ => false

/-- Whether the kind is a comment. -/
def isComment : Kind → Bool
  | .lineComment | .blockComment => true
  | _ => false

/-- Whether tokens of the kind are left out of the grammar: blanks, line breaks and comments. -/
def isTrivia : Kind → Bool
  | .whitespace | .newline | .lineComment | .blockComment => true
  | _ => false

/-- **Whether a line break right after a token of the kind ends the statement.** -/
def endsStatement (k : Kind) : Bool :=
  k.isLiteral || match k with
    | .name => true
    | .keyword .breakKw | .keyword .continueKw | .keyword .fallthroughKw | .keyword .returnKw => true
    | .symbol .plusPlus | .symbol .minusMinus => true
    | .symbol .rightParen | .symbol .rightBracket | .symbol .rightBrace => true
    | _ => false

theorem isTrivia_of_isComment {k : Kind} (h : k.isComment = true) : k.isTrivia = true := by
  cases k <;> simp_all [isComment, isTrivia]

end Kind

end Token

end GoTree
