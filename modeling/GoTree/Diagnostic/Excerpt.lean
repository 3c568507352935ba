import GoTree.Diagnostic.Basic
import GoTree.Text.Lines
import GoTree.Unicode.Blank
import GoTree.Unicode.Width

/-!
# Excerpts

An excerpt is what a diagnostic quotes of its text: the lines its bytes touch, and where in them the
bytes lie.  **Columns** are terminal columns counted from zero.  Marks are placed as if tabs and
other controls took no column.

## Main definitions

* `Excerpt`, `Diagnostic.excerpt`: the lines around the bytes of a diagnostic
* `Excerpt.first`, `Excerpt.last`: the columns of the marks
* `Excerpt.indent`, `Excerpt.longest`: the measures of all lines together
-/

namespace GoTree

/-- The lines that the bytes of a diagnostic touch. -/
structure Excerpt where
  /-- The number of the first line, counted from one. -/
  number : Nat
  /-- The lines without their ends; none when there is nothing to quote. -/
  lines : List Text
  /-- The bytes of the first line in front of the marked ones. -/
  start : Nat
  /-- The bytes from the beginning of the first line to the end of the marked ones. -/
  stop : Nat
deriving DecidableEq, Repr

/-- **The lines around the bytes of a diagnostic**: from the line feed before the first byte to the
line feed after the last one, neither included. -/
def Diagnostic.excerpt (d : Diagnostic) (t : Text) : Excerpt :=
  let before := t.fitting d.start
  let after : Text := t.drop before.length
  let head : Text := (before.reverse.takeWhile (· != '\n')).reverse
  let marked := after.fitting (d.stop - d.start)
  let tail := (after.drop marked.length).takeWhile (· != '\n')
  { number := before.count '\n' + 1
    lines := Text.lines (head ++ marked ++ tail)
    start := head.size
    stop := head.size + marked.size }

namespace Excerpt

/-- The column under which the marks of `line` begin. -/
def first (e : Excerpt) (line : Text) : Nat :=
  Unicode.widthOf 0 (line.fitting e.start)

/-- **The column after the marks of `line`.**  There is always a mark, also where no bytes are
marked. -/
def last (e : Excerpt) (line : Text) : Nat :=
  max (e.first line + 1) (Unicode.widthOf 0 (line.fitting e.stop))

/-- How far the blanks at the front of a line reach, a tab taken for four columns. -/
def leadingBlanks : Text → Nat
  | [] => 0
  | c :: line =>
    if Unicode.isBlank c then (if c = '\t' then 4 else 1) + leadingBlanks line else 0

/-- The least indentation of the lines that are not blank, or `none` when all of them are. -/
def indent (e : Excerpt) : Option Nat :=
  ((e.lines.filter fun line => line.any fun c => !Unicode.isBlank c).map leadingBlanks).min?

/-- The size of the longest line. -/
def longest (e : Excerpt) : Nat :=
  (e.lines.map Text.size).foldl max 0

end Excerpt

end GoTree
