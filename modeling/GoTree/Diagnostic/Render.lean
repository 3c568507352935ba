import GoTree.Diagnostic.Row
import GoTree.Diagnostic.Window

/-!
# Rendered diagnostics

A diagnostic is shown as rows: the message, the place, and the line it is about with marks and a
label under its bytes.  A margin on the left holds the number of the line.

## Main definitions

* `Excerpt.shown`: how a character of a line is shown
* `Excerpt.codeRow`, `Excerpt.markRow`: a line and its marks
* `Diagnostic.render`: the whole diagnostic
-/

namespace GoTree

namespace Excerpt

/-- How a character of a line is shown: a tab as four spaces, and marks that change the direction or
join characters not at all. -/
def shown (c : Char) : List Char :=
  if c = '\t' then [' ', ' ', ' ', ' ']
  else if c = '\u200d' ∨ ('\u202a' ≤ c ∧ c ≤ '\u202e') ∨ ('\u2066' ≤ c ∧ c ≤ '\u2069') then []
  else [c]

/-- The longest part at the front of `s` that takes at most `room` columns, a control counted as
one. -/
def within (room : Nat) : List Char → List Char
  | [] => []
  | c :: s =>
    let width := Unicode.widthOf 1 [c]
    if width ≤ room then c :: within (room - width) s else []

/-- What stands for the part of a line that is left out. -/
def ellipsis : List Char := ['.', '.', '.']

/-- The margin in front of every row: the number of the line, or as many spaces, and a bar. -/
def margin (number : String) : Row :=
  number.toList ++ [' ', '|']

/-- The margin of a row without a number. -/
def blankMargin (number : String) : Row :=
  margin (String.ofList (number.toList.map fun _ => ' '))

/-- **The row of a line**: its part in view, with the ellipses written over the ends of it. -/
def codeRow (w : Window) (number : String) (line : Text) : Row :=
  let code := line.flatMap shown
  let size := Text.size code
  let view := within (w.stop size - w.start size) (code.drop (w.start size))
  let column := number.length + 3
  let row := (margin number).put column view
  let row := if w.cutsLeft then row.put column ellipsis else row
  if w.cutsRight size then row.put (column + Unicode.widthOf 1 view - ellipsis.length) ellipsis
  else row

/-- **The row of the marks** from column `first` to `last`, with the label after them.  Marks left
of the view reach into the margin, and those that would lie left of the row are one mark at its
front. -/
def markRow (w : Window) (number : String) (line : Text) (first last : Nat) : Row :=
  let code := line.flatMap shown
  let hidden := Unicode.widthOf 1 (code.take (w.start (Text.size code)))
  let column := number.length + 3
  let start := column + first - hidden
  let stop := column + last - hidden
  let row := (blankMargin number).put (column + (last + 1 - hidden)) "here".toList
  row.put start (List.replicate (max 1 (stop - start)) '^')

/-- **The rows of an excerpt**: the first line between two empty rows of the margin, or the empty
rows alone when there is no line. -/
def rows (e : Excerpt) (path : String) : List Row :=
  let place (number : String) (line column : Nat) : Row :=
    number.toList.map (fun _ => ' ') ++ "-->".toList ++
      (if path.isEmpty then [] else ' ' :: path.toList) ++
      (":" ++ toString line ++ ":" ++ toString column).toList
  match e.lines with
  | [] => [place "" 1 1, blankMargin "", blankMargin ""]
  | line :: _ =>
    let number := toString e.number
    let first := e.first line
    let last := e.last line
    let w := Window.around e first last
    [place number e.number ((line.fitting e.start).length + 1),
     blankMargin number,
     codeRow w number line,
     markRow w number line first last,
     blankMargin number]

end Excerpt

namespace Diagnostic

/-- The first row of a rendered diagnostic. -/
def title (d : Diagnostic) : String :=
  if d.message.isEmpty then "error" else "error: " ++ d.message

/-- **A diagnostic with the line it is about**, one row a line. -/
def render (d : Diagnostic) (path : String) (t : Text) : String :=
  "\n".intercalate
    (d.title :: (((d.clampTo t.size).excerpt t).rows path).map String.ofList)

end Diagnostic

end GoTree
