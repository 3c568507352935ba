import GoTree.Mapping.Error
import GoTree.Mapping.Gap
import GoTree.Syntax.Span
import GoTree.Tree.Node

/-!
# Assembling nodes

How leaves are checked against the text and how children come together.  Every child is appended
after the one before it; the bytes between the two are filled with the comments that lie there and
with implied punctuation.

The comments of a file are kept in order around a cursor.  Filling a gap first moves the cursor back
over the comments that start in or after the gap, because the gaps inside a child are filled before
the gap in front of it.

## Main definitions

* `Mapping`: what a mapping works on
* `Mapping.leafAt`, `Mapping.expect`: leaves, by their bytes or by the text they must have
* `CommentCursor`, `CommentCursor.rewind`: the comments around a place
* `Mapping.fillGap`, `Mapping.append`: filling a gap, and adding a child
-/

namespace GoTree

/-- A source and how wrong tokens are handled. -/
structure Mapping where
  source : Source
  strictness : Strictness

namespace Mapping

variable (m : Mapping)

/-- The text of the source. -/
def text : Text := m.source.text

/-! ### Leaves -/

/-- **A leaf over the bytes from `start` to `stop`.**  Only the end of the file has no bytes. -/
def leafAt (tags : List Tag) (start stop : Nat) (label : String) :
    Except MapError (Option Node) :=
  if stop < start ∨ m.text.size < stop then .error (.invalidSpan (m.source.locate start stop))
  else if start = stop ∧ tags ≠ [.endOfFile] then
    m.strictness.tolerate (.emptyToken (m.source.locate start stop)) none
  else
    match m.text.lineColumn? start, m.text.slice? start stop with
    | some p, some value =>
      .ok (some (.leaf tags label ⟨String.ofList value, p.line, p.column⟩ start stop))
    | _, _ => m.strictness.tolerate (.invalidPosition (m.source.locate start stop)) none

/-- The front of a text that holds `n` bytes other than carriage returns, or all of the text when it
holds fewer; absent when the last byte is not the end of a character. -/
def stretch : Text → (n : Nat) → Option Text
  | _, 0 => some []
  | [], _ + 1 => some []
  | c :: t, n + 1 =>
    if c = '\r' then (stretch t (n + 1)).map (c :: ·)
    else if c.utf8Size ≤ n + 1 then (stretch t (n + 1 - c.utf8Size)).map (c :: ·)
    else none

/-- **Where a token ends** that is stored as `expected`, and the text it must have.  Raw strings and
comments are stored without carriage returns, so in a text with carriage returns the end is found by
counting the other bytes; if that moves the end, the source itself is what must be there. -/
def tokenEnd (pos : Offset) (expected : String) : Nat × String :=
  let stop := pos + storedSize expected
  if m.text.contains '\r' then
    match (m.text.splitAt? pos).bind fun parts => stretch parts.2 (storedSize expected) with
    | some found =>
      if pos + found.size = stop then (stop, expected)
      else (pos + found.size, String.ofList found)
    | none => (stop, expected)
  else (stop, expected)

/-- **A leaf at `pos` that must have the text `expected`.** -/
def expect (tags : List Tag) (pos : Offset) (expected label : String) :
    Except MapError (Option Node) :=
  let (stop, wanted) := m.tokenEnd pos expected
  match m.leafAt tags pos stop label with
  | .ok (some node) =>
    if node.value = wanted then .ok (some node)
    else
      m.strictness.tolerate (.tokenMismatch node.value wanted (m.source.locate pos stop)) none
  | other => other

end Mapping

/-! ### Comments around a place -/

/-- The comments of a file around a place: those passed, the last of them first, and those
ahead. -/
structure CommentCursor where
  passed : List Node
  ahead : List Node

namespace CommentCursor

/-- The cursor before all comments. -/
def start (comments : List Node) : CommentCursor :=
  ⟨[], comments⟩

/-- All comments, in order. -/
def toList (cursor : CommentCursor) : List Node :=
  cursor.passed.reverse ++ cursor.ahead

/-- Moves back over comments that start at or after `offset`. -/
def rewindFrom (offset : Nat) : (passed ahead : List Node) → CommentCursor
  | [], ahead => ⟨[], ahead⟩
  | comment :: passed, ahead =>
    if offset ≤ comment.start then rewindFrom offset passed (comment :: ahead)
    else ⟨comment :: passed, ahead⟩

/-- **Moves the cursor back** over every comment next to it that starts at or after `offset`. -/
def rewind (cursor : CommentCursor) (offset : Nat) : CommentCursor :=
  rewindFrom offset cursor.passed cursor.ahead

theorem toList_rewindFrom (offset : Nat) (passed ahead : List Node) :
    (rewindFrom offset passed ahead).toList = passed.reverse ++ ahead := by
  induction passed generalizing ahead with
  | nil => rfl
  | cons comment passed ih =>
    simp only [rewindFrom]
    split
    · simp [ih]
    · rfl

/-- Moving the cursor back keeps the comments. -/
@[simp]
theorem toList_rewind (cursor : CommentCursor) (offset : Nat) :
    (cursor.rewind offset).toList = cursor.toList :=
  toList_rewindFrom offset cursor.passed cursor.ahead

end CommentCursor

namespace Mapping

variable (m : Mapping)

/-! ### Gaps -/

/-- The leaf for a token of a gap, if it is kept. -/
def pieceLeaf : GapPiece → Except MapError (Option Node)
  | .implied word start stop => m.leafAt (impliedTags word) start stop ""
  | .unaccounted start stop =>
    let text := String.ofList ((m.text.slice? start stop).getD [])
    match m.strictness.tolerate (.missingToken text (m.source.locate start stop)) () with
    | .ok () => m.leafAt [] start stop ""
    | .error e => .error e

/-- The leaves for several tokens of a gap. -/
def pieceLeaves : List GapPiece → Except MapError (List Node)
  | [] => .ok []
  | piece :: rest =>
    match m.pieceLeaf piece with
    | .error e => .error e
    | .ok leaf =>
      match pieceLeaves rest with
      | .error e => .error e
      | .ok leaves => .ok (leaf.toList ++ leaves)

/-- The leaves for the implied punctuation between two offsets. -/
def punctuation (start stop : Nat) : Except MapError (List Node) :=
  m.pieceLeaves (gapPieces m.text start stop)

/-- Fills the bytes from `start` to `stop` with the comments ahead that lie there and with
punctuation around them.  Comments that start before are passed over, and one that reaches beyond
the gap ends the search. -/
def fillFrom (stop : Nat) : (start : Nat) → (passed ahead : List Node) →
    Except MapError (List Node × CommentCursor)
  | start, passed, [] =>
    match m.punctuation start stop with
    | .ok leaves => .ok (leaves, ⟨passed, []⟩)
    | .error e => .error e
  | start, passed, comment :: ahead =>
    if comment.start < start then fillFrom stop start (comment :: passed) ahead
    else if stop < comment.stop then
      match m.punctuation start stop with
      | .ok leaves => .ok (leaves, ⟨passed, comment :: ahead⟩)
      | .error e => .error e
    else
      match m.punctuation start comment.start with
      | .error e => .error e
      | .ok leaves =>
        match fillFrom stop comment.stop (comment :: passed) ahead with
        | .error e => .error e
        | .ok (rest, cursor) => .ok (leaves ++ comment :: rest, cursor)

/-- **Fills a gap:** the comments and the implied punctuation between two offsets. -/
def fillGap (start stop : Nat) (cursor : CommentCursor) :
    Except MapError (List Node × CommentCursor) :=
  let back := cursor.rewind start
  m.fillFrom stop start back.passed back.ahead

/-- **Appends a child** after filling the gap between the last child and it.  The first child gets
nothing before it: that gap belongs to an enclosing node. -/
def append (children : List Node) (child : Option Node) (cursor : CommentCursor) :
    Except MapError (List Node × CommentCursor) :=
  match child with
  | none => .ok (children, cursor)
  | some child =>
    match children.getLast? with
    | none => .ok ([child], cursor)
    | some last =>
      if child.start < last.stop then .error (.overlap (m.source.locate last.stop child.start))
      else
        match m.fillGap last.stop child.start cursor with
        | .error e => .error e
        | .ok (gap, cursor) => .ok (children ++ gap ++ [child], cursor)

end Mapping

end GoTree
