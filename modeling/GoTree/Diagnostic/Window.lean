import GoTree.Diagnostic.Excerpt

/-!
# Windows on long lines

A page is `Window.page` columns wide.  A line that does not fit is shown through a **window**: the
part of it around the marks, with an ellipsis on each side where something is left out.  A deep
indentation that all lines share is left out too.

The window is chosen once for all lines of an excerpt (`Window.around`), and each line then takes as
much of it as the line has (`Window.start`, `Window.stop`).

## Main definitions

* `Window`, `Window.around`: the columns in view, and how they are chosen
* `Window.start`, `Window.stop`: the part of a line in view
* `Window.cutsLeft`, `Window.cutsRight`: whether an ellipsis stands at a side
-/

namespace GoTree

/-- The columns of an excerpt that are in view. -/
structure Window where
  /-- The first column in view; `none` when it lies behind every line. -/
  left : Option Nat
  /-- The column after the last one in view. -/
  right : Nat
  /-- The columns that the page has for code. -/
  room : Nat
  /-- Whether the right side was set by the marks, so that it includes their clearance. -/
  tight : Bool
deriving DecidableEq, Repr

namespace Window

/-- The width of a page, in columns. -/
def page : Nat := 140

/-- The columns kept in view on each side of what must be seen. -/
def clearance : Nat := 6

/-- The deepest indentation that is shown whole. -/
def shallow : Nat := 20

/-- The columns that stay in view of a deeper indentation. -/
def kept : Nat := 16

/-- The columns of the label after the marks, with the blank in front of it. -/
def label : Nat := 5

/-- The columns for code when line numbers have `digits` digits. -/
def roomFor (digits : Nat) : Nat :=
  page - (3 + digits)

/-- **The sides of the window** for an excerpt whose lines are indented by `indent` and reach to
`longest`, with marks from `first` to `last`.

If everything fits behind a shared indentation, everything is in view.  Otherwise the first of these
that has room is taken: the view from the indentation on, the marks and their label in the middle,
the marks alone a little to the left of the middle.  If not even the marks have room they are in view
without regard to the page. -/
def sides (room indent longest first last : Nat) : Nat × Nat :=
  let indent := indent - clearance
  let marksLeft := first - clearance
  let marksRight := last + clearance
  let labelRight := last + label + clearance
  let left := if shallow < indent then indent - kept else 0
  let right := max longest left
  if right - left ≤ room then (left, right)
  else if indent ≤ labelRight ∧ labelRight - indent ≤ room then (indent, indent + room)
  else if labelRight - marksLeft ≤ room then
    let left := marksLeft - (room - (labelRight - marksLeft)) / 2
    (left, left + room)
  else if marksRight - marksLeft ≤ room then
    let left := marksLeft - (room - (marksRight - marksLeft)) / 5 * 2
    (left, left + room)
  else (marksLeft, marksRight)

/-- **The window on an excerpt** with marks from `first` to `last`.  Where all lines are blank, the
window lies behind them. -/
def around (e : Excerpt) (first last : Nat) : Window :=
  let room := roomFor (toString (e.number + e.lines.length)).length
  match e.indent with
  | none => { left := none, right := 0, room := room, tight := false }
  | some indent =>
    let sides := sides room indent e.longest first last
    { left := some sides.1
      right := sides.2
      room := room
      tight := sides.2 = last + clearance ∨ sides.2 = last + label + clearance }

/-- The first place in view of a line with `size` places. -/
def start (w : Window) (size : Nat) : Nat :=
  match w.left with
  | none => size
  | some left => min left size

/-- The place after the last one in view of a line with `size` places. -/
def stop (w : Window) (size : Nat) : Nat :=
  match w.left with
  | none => size
  | some left => if size - left ≤ w.room then size else min size w.right

/-- Whether an ellipsis stands at the left side. -/
def cutsLeft (w : Window) : Bool :=
  match w.left with
  | none => true
  | some left => 0 < left

/-- Whether an ellipsis stands at the right side of a line with `size` places. -/
def cutsRight (w : Window) (size : Nat) : Bool :=
  match w.left with
  | none => false
  | some left =>
    (if w.tight then w.right - clearance else w.right) < size && left + w.room < size

end Window

end GoTree
