import GoTree.Text.Basic
import GoTree.Token.Kind
import GoTree.Tree.Tag

/-!
# Gaps

The bytes between two neighbouring nodes.  Beside blanks they may hold the tokens to which the
syntax tree gives no offset: some punctuation and a few keywords.  Anything else is unaccounted for.

## Main definitions

* `impliedFrom?`, `impliedPrefix?`: the tokens a gap may hold
* `GapPiece`: a token of a gap, implied or unaccounted for
* `gapPieces`: the tokens between two offsets of a text
-/

namespace GoTree

/-- The encoding of a word. -/
def wordBytes (word : String) : List UInt8 :=
  Text.bytes word.toList

/-- The tags of an implied token. -/
def impliedTags (word : String) : List Tag :=
  if word = Keyword.elseKw.spelling then [.elseKeyword] else []

/-- A token of a gap, by the offsets of its bytes. -/
inductive GapPiece where
  | implied (word : String) (start stop : Nat)
  /-- Everything from the first byte that starts no implied token on. -/
  | unaccounted (start stop : Nat)
deriving DecidableEq, Repr

/-- Whether a byte only separates tokens.  All bytes of longer characters are greater. -/
def isSpaceByte (b : UInt8) : Bool :=
  b ≤ 0x20

/-- Bytes without the blanks at their end. -/
def trimEnd (bs : List UInt8) : List UInt8 :=
  (bs.reverse.dropWhile isSpaceByte).reverse

/-- **The only token a gap may hold that starts with the byte `lead`.** -/
def impliedFrom? (lead : UInt8) : Option String :=
  match Char.ofNat lead.toNat with
  | ',' => some ","
  | ';' => some ";"
  | '.' => some "."
  | '[' => some "["
  | ']' => some "]"
  | '=' => some "="
  | ':' => some ":"
  | 't' => some "type"
  | 'r' => some "range"
  | 'e' => some "else"
  | 'c' => some "chan"
  | '<' => some "<-"
  | _ => none

/-- The implied token that some bytes start with. -/
def impliedPrefix? (bs : List UInt8) : Option String :=
  (bs.head?.bind impliedFrom?).filter fun word => (wordBytes word).isPrefixOf bs

/-- The first `n` tokens of bytes that start at `offset` and do not end with a blank. -/
def piecesFrom : (n : Nat) → (offset : Nat) → List UInt8 → List GapPiece
  | 0, _, _ => []
  | n + 1, offset, bs =>
    let blanks := (bs.takeWhile isSpaceByte).length
    let rest := bs.drop blanks
    let start := offset + blanks
    if rest.isEmpty then []
    else
      match impliedPrefix? rest with
      | some word =>
        let stop := start + (wordBytes word).length
        .implied word start stop :: piecesFrom n stop (rest.drop (wordBytes word).length)
      | none => [.unaccounted start (start + rest.length)]

/-- **The tokens between two offsets of a text.** -/
def gapPieces (t : Text) (offset stop : Nat) : List GapPiece :=
  let bs := trimEnd (t.bytesIn offset stop)
  piecesFrom bs.length offset bs

end GoTree
