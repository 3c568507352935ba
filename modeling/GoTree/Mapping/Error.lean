import GoTree.Diagnostic.Basic
import GoTree.Text.Position

/-!
# Mapping errors

Why a text and a syntax tree do not make a generic tree together: a token that is not where the
syntax tree says, or bytes that nothing accounts for.

## Main definitions

* `Source`: a text and the path it was read from
* `Location`, `Source.locate`: some bytes of a source, and their position if they have one
* `MapError`, `MapError.message`: what is wrong, and how that is put into words
* `Strictness`, `Strictness.tolerate`: whether a token that is wrong stops the mapping
-/

namespace GoTree

/-- A text and the path it was read from. -/
structure Source where
  path : String
  text : Text

/-- Some bytes of a source, and the position of the first of them if it has one.  The bytes may be
given in the wrong order. -/
structure Location where
  offset : Nat
  stop : Nat
  path : String
  position : Option LineColumn
deriving DecidableEq, Repr

/-- A byte offset as reported: a word of 32 bits. -/
def reportedOffset (n : Nat) : Nat :=
  n % 0x100000000

/-- The location of the bytes from `offset` to `stop`. -/
def Source.locate (source : Source) (offset stop : Nat) : Location :=
  ⟨reportedOffset offset, reportedOffset stop, source.path, source.text.lineColumn? offset⟩

/-- A location in words, to follow what is wrong there. -/
def Location.describe (location : Location) : String :=
  " at offset " ++ toString location.offset ++ ":" ++ toString location.stop ++ " for file "
    ++ location.path
    ++ (match location.position with
        | some p => ":" ++ toString p.line ++ ":" ++ toString p.column
        | none => "")

/-- Why a text and a syntax tree do not make a generic tree together. -/
inductive MapError where
  /-- Bytes between two nodes that are no implied punctuation. -/
  | missingToken (text : String) (location : Location)
  /-- A node that starts before the end of the one before it. -/
  | overlap (location : Location)
  /-- A token outside the text. -/
  | invalidSpan (location : Location)
  /-- A token without bytes. -/
  | emptyToken (location : Location)
  /-- A token whose bytes are not the ones recorded. -/
  | tokenMismatch (found expected : String) (location : Location)
  /-- A token that does not start and end with a character. -/
  | invalidPosition (location : Location)
  /-- A syntax tree read from a text of another size. -/
  | fileSize (expected found : Nat) (path : String)
deriving DecidableEq, Repr

namespace MapError

/-- The error in words. -/
def message : MapError → String
  | .missingToken text location => "Invalid missing token '" ++ text ++ "'" ++ location.describe
  | .overlap location => "Invalid token sequence" ++ location.describe
  | .invalidSpan location => "Invalid token" ++ location.describe
  | .emptyToken location => "Invalid empty token" ++ location.describe
  | .tokenMismatch found expected location =>
    "Invalid token value '" ++ found ++ "' instead of '" ++ expected ++ "'" ++ location.describe
  | .invalidPosition location => "Invalid token position" ++ location.describe
  | .fileSize expected found path =>
    "Unexpected file size, expect " ++ toString expected ++ " instead of " ++ toString found
      ++ " for file " ++ path

/-- Where the error is; a wrong size has no place. -/
def location? : MapError → Option Location
  | .missingToken _ location => some location
  | .overlap location => some location
  | .invalidSpan location => some location
  | .emptyToken location => some location
  | .tokenMismatch _ _ location => some location
  | .invalidPosition location => some location
  | .fileSize _ _ _ => none

/-- The error as a diagnostic, its bytes in order. -/
def toDiagnostic (e : MapError) : Diagnostic :=
  match e.location? with
  | some l => ⟨e.message, min l.offset l.stop, max l.offset l.stop⟩
  | none => ⟨e.message, 0, 0⟩

/-- Whether the mapping can go on without the token that is wrong. -/
def isTolerable : MapError → Bool
  | .missingToken _ _ | .emptyToken _ | .tokenMismatch _ _ _ | .invalidPosition _ => true
  | .overlap _ | .invalidSpan _ | .fileSize _ _ _ => false

end MapError

/-- How wrong tokens are handled. -/
inductive Strictness where
  /-- The first error stops the mapping. -/
  | strict
  /-- Tokens that are wrong are dropped, and bytes that nothing accounts for become a token. -/
  | relaxed
deriving DecidableEq, Repr

namespace Strictness

/-- Whether an error stops the mapping. -/
def tolerates (strictness : Strictness) (e : MapError) : Bool :=
  strictness == .relaxed && e.isTolerable

/-- **Goes on with `fallback`** if the error is tolerated, and stops otherwise. -/
def tolerate {α : Type} (strictness : Strictness) (e : MapError) (fallback : α) :
    Except MapError α :=
  if strictness.tolerates e then .ok fallback else .error e

@[simp]
theorem tolerate_strict {α : Type} (e : MapError) (fallback : α) :
    strict.tolerate e fallback = .error e := rfl

theorem tolerate_relaxed {α : Type} (e : MapError) (fallback : α) :
    relaxed.tolerate e fallback = if e.isTolerable then .ok fallback else .error e := rfl

end Strictness

end GoTree
