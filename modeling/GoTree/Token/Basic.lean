import GoTree.Token.Kind

/-!
# Tokens

A token is a stretch of a text: what it is, the byte offset at which it starts, and its characters.
-/

namespace GoTree

/-- A stretch of text at a byte offset. -/
structure Token where
  kind : Token.Kind
  start : Nat
  text : Text
deriving DecidableEq, Repr

namespace Token

/-- The byte offset at which a token ends. -/
def stop (token : Token) : Nat :=
  token.start + token.text.size

/-- The token for the end of the text at `offset`. -/
def endOfFile (offset : Nat) : Token :=
  ⟨.endOfFile, offset, []⟩

@[simp]
theorem stop_endOfFile (offset : Nat) : (endOfFile offset).stop = offset := by
  simp [stop, endOfFile]

end Token

end GoTree
