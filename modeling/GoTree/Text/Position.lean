import GoTree.Text.Basic

/-!
# Lines and columns

Lines end at line feeds, and columns count characters; both start at one.  The position of a byte
offset is found by walking the characters before it.  The end of a text that stops on a carriage
return counts as the start of a new line.

## Main definitions

* `LineColumn`, `LineColumn.advance`: a position, and the position one character further
* `Text.lineColumn?`: the position of a byte offset
* `Text.offset?`: the byte offset of a position
-/

namespace GoTree

/-- A line and a column, both counted from one; columns count characters. -/
structure LineColumn where
  line : Nat
  column : Nat
deriving DecidableEq, Repr

namespace LineColumn

/-- The position of the first character of a text. -/
def first : LineColumn := ⟨1, 1⟩

/-- The position after reading `c`: a line feed opens the next line. -/
def advance (p : LineColumn) (c : Char) : LineColumn :=
  if c = '\n' then ⟨p.line + 1, 1⟩ else ⟨p.line, p.column + 1⟩

/-- The position after reading `t` from `p`. -/
def after (p : LineColumn) (t : Text) : LineColumn :=
  t.foldl advance p

@[simp]
theorem after_nil (p : LineColumn) : p.after [] = p := rfl

@[simp]
theorem after_cons (p : LineColumn) (c : Char) (t : Text) :
    p.after (c :: t) = (p.advance c).after t := rfl

@[simp]
theorem after_append (p : LineColumn) (s t : Text) : p.after (s ++ t) = (p.after s).after t := by
  simp [after, List.foldl_append]

end LineColumn

namespace Text

/-- **The position of a byte offset**, or `none` when no character begins there and the text does
not end there.  The end of a text whose last character is a carriage return lies on the next
line. -/
def lineColumn? (t : Text) (offset : Nat) : Option LineColumn :=
  (t.splitAt? offset).map fun parts =>
    let plain := LineColumn.first.after parts.1
    if parts.2.isEmpty && t.getLast? == some '\r' then ⟨plain.line + 1, 1⟩ else plain

/-- The first offset, counted from `offset`, at which a walk along `t` from position `p` stands on
`target`. -/
def seek (target : LineColumn) : Text → (p : LineColumn) → (offset : Nat) → Option Nat
  | [], p, offset => if p = target then some offset else none
  | c :: t, p, offset =>
    if p = target then some offset else seek target t (p.advance c) (offset + c.utf8Size)

/-- **The byte offset of a position**: the end of the text when the position is the one of the end,
and else where a walk along the text reaches it. -/
def offset? (t : Text) (target : LineColumn) : Option Nat :=
  if t.lineColumn? t.size = some target then some t.size else seek target t .first 0

/-- An offset has a position exactly when the text can be cut there. -/
theorem isSome_lineColumn? {t : Text} {offset : Nat} :
    (t.lineColumn? offset).isSome = true ↔ t.IsBoundary offset := by
  simp [lineColumn?, IsBoundary]

end Text

end GoTree
