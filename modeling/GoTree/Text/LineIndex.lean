import GoTree.Text.Position

/-!
# Positions from an index of lines

An index of the lines of a text knows, for a byte offset, the number of line feeds before it and the
bytes since the last of them, and for a line, the offset at which it starts.  With such an index a
position is worked out from the characters of one line, and the offset of a position by reading on
from the start of its line.

## Main definitions

* `Text.lastLine`: the characters after the last line feed
* `LineIndex`: an index of the lines of a text
* `LineIndex.lineColumn?`, `LineIndex.offset?`: positions and offsets from the index
* `LineIndex.ofText`: the index that counts line feeds
-/

namespace GoTree

namespace Text

/-- The characters after the last line feed. -/
def lastLine (t : Text) : Text :=
  (t.reverse.takeWhile (· != '\n')).reverse

/-- Whether a line starts behind `t`: nothing stands there, or a line feed stands last. -/
def EndsLine (t : Text) : Prop :=
  ∀ c ∈ t.getLast?, c = '\n'

@[simp]
theorem lastLine_nil : lastLine [] = [] := rfl

/-- A line feed starts a new line, and any other character goes on with the last one. -/
theorem lastLine_concat (t : Text) (c : Char) :
    lastLine (t ++ [c]) = if c = '\n' then [] else lastLine t ++ [c] := by
  unfold lastLine
  rw [List.reverse_append, List.reverse_singleton, List.singleton_append, List.takeWhile_cons]
  by_cases hc : c = '\n'
  · simp [hc]
  · simp [hc]

/-- The offset at which the line comes that is `line` lines further on. -/
def lineStart? : Text → (line : Nat) → (offset : Nat) → Option Nat
  | _, 0, offset => some offset
  | [], _ + 1, _ => none
  | c :: t, line + 1, offset =>
    lineStart? t (if c = '\n' then line else line + 1) (offset + c.utf8Size)

/-- Where a line starts, no line feed is missing before it, and the last character is one. -/
theorem lineStart?_eq_some_iff {t : Text} {line offset start : Nat} :
    t.lineStart? line offset = some start ↔
      ∃ before rest, t = before ++ rest ∧ offset + before.size = start ∧
        before.count '\n' = line ∧ before.EndsLine := by
  induction t generalizing line offset with
  | nil =>
    cases line with
    | zero => simp [lineStart?, EndsLine]
    | succ line => simp [lineStart?]
  | cons c t ih =>
    cases line with
    | zero =>
      constructor
      · intro h
        obtain rfl : offset = start := by simpa [lineStart?] using h
        exact ⟨[], c :: t, rfl, rfl, rfl, by simp [EndsLine]⟩
      · rintro ⟨before, rest, -, rfl, hcount, hends⟩
        -- without a line feed nothing can stand before the line
        obtain rfl : before = [] := by
          rcases List.eq_nil_or_concat before with rfl | ⟨front, d, rfl⟩
          · rfl
          · obtain rfl : d = '\n' := hends d (by simp)
            simp at hcount
        rfl
    | succ line =>
      rw [lineStart?, ih]
      constructor
      · rintro ⟨before, rest, rfl, hsize, hcount, hends⟩
        refine ⟨c :: before, rest, rfl, ?_, ?_, ?_⟩
        · rw [size_cons]
          omega
        · rw [List.count_cons, hcount]
          by_cases hc : c = '\n'
          · simp [hc]
          · simp [hc]
        · intro d hd
          cases before with
          | nil =>
            obtain rfl : c = d := by simpa using hd
            by_cases hc : c = '\n'
            · exact hc
            · simp [hc] at hcount
          | cons e before => exact hends d (by simpa using hd)
      · rintro ⟨before, rest, heq, hsize, hcount, hends⟩
        cases before with
        | nil => simp at hcount
        | cons d before =>
          obtain ⟨rfl, rfl⟩ := List.cons.inj heq
          refine ⟨before, rest, rfl, ?_, ?_, ?_⟩
          · rw [size_cons] at hsize
            omega
          · rw [List.count_cons] at hcount
            by_cases hc : c = '\n'
            · simpa [hc] using hcount
            · simpa [hc] using hcount
          · intro e he
            refine hends e ?_
            cases before with
            | nil => simp at he
            | cons f before => simpa using he

/-- Reads on along a line: the offset before which `column` characters of the line stand. -/
def columnOffset? : Text → (column : Nat) → (offset : Nat) → Option Nat
  | _, 0, offset => some offset
  | [], _ + 1, _ => none
  | c :: t, column + 1, offset =>
    if c = '\n' then none else columnOffset? t column (offset + c.utf8Size)

end Text

/-- **An index of the lines of a text.** -/
structure LineIndex (t : Text) where
  /-- The line of an offset, counted from zero, and the bytes since the start of the line. -/
  lineCol : Offset → Nat × Nat
  /-- The offset at which a line starts, if there is such a line. -/
  start? : (line : Nat) → Option Offset
  lineCol_size : ∀ before rest, t = before ++ rest →
    lineCol before.size = (before.count '\n', before.lastLine.size)
  start?_eq_some_iff : ∀ line start, start? line = some start ↔
    ∃ before rest, t = before ++ rest ∧ before.size = start ∧ before.count '\n' = line ∧
      before.EndsLine

namespace LineIndex

variable {t : Text}

/-- **The position of a byte offset by the index.**  Columns are counted on the characters of the
line before the offset; the end of a text that stops within a line on a line end lies on the next
line. -/
def lineColumn? (index : LineIndex t) (offset : Nat) : Option LineColumn :=
  if t.IsBoundary offset then
    let (line, col) := index.lineCol offset
    (t.slice? (offset - col) offset).map fun before =>
      if offset = t.size ∧ col ≠ 0 ∧ (t.getLast? = some '\n' ∨ t.getLast? = some '\r') then
        ⟨line + 2, 1⟩
      else ⟨line + 1, before.length + 1⟩
  else none

/-- **The byte offset of a position by the index:** the end of the text when the position is the
one of the end, and else the place that is reached from the start of the line. -/
def offset? (index : LineIndex t) (target : LineColumn) : Option Nat :=
  if index.lineColumn? t.size = some target then some t.size
  else
    match target with
    | ⟨0, _⟩ | ⟨_, 0⟩ => none
    | ⟨line + 1, column + 1⟩ =>
      (index.start? line).bind fun start =>
        (t.splitAt? start).bind fun parts => parts.2.columnOffset? column start

/-- The index that counts line feeds. -/
def ofText (t : Text) : LineIndex t where
  lineCol offset :=
    match t.splitAt? offset with
    | some (before, _) => (before.count '\n', before.lastLine.size)
    | none => (0, 0)
  start? line := t.lineStart? line 0
  lineCol_size before rest h := by
    rw [Text.splitAt?_eq_some_iff.2 ⟨h, rfl⟩]
  start?_eq_some_iff line start := by
    simp only [Text.lineStart?_eq_some_iff, Nat.zero_add]

end LineIndex

end GoTree
