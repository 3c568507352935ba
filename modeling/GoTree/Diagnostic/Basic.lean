import GoTree.Grammar.Error

/-!
# Diagnostics

A message about some bytes of a text.

## Main definitions

* `Diagnostic`, `Diagnostic.brief`: a message and its bytes, and both on one line
* `Diagnostic.clampTo`: a diagnostic kept inside a text
-/

namespace GoTree

/-- A message about the bytes from `start` to `stop`. -/
structure Diagnostic where
  message : String
  start : Nat
  stop : Nat
deriving DecidableEq, Repr

/-- A syntax error as a diagnostic. -/
def SyntaxError.toDiagnostic (e : SyntaxError) : Diagnostic :=
  ⟨e.message, e.start, e.stop⟩

namespace Diagnostic

/-- The bytes and the message on one line. -/
def brief (d : Diagnostic) : String :=
  toString d.start ++ ".." ++ toString d.stop ++ ": " ++ d.message

/-- A diagnostic kept inside a text of `size` bytes. -/
def clampTo (d : Diagnostic) (size : Nat) : Diagnostic :=
  let start := min d.start size
  ⟨d.message, start, min (max d.stop start) size⟩

end Diagnostic

end GoTree
