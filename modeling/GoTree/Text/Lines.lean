import GoTree.Text.Basic

/-!
# The lines of a text

A line ends at a line feed, and a carriage return right before the line feed belongs to the end of
the line.  A carriage return that no line feed follows is a character of its line like any other.

## Main definitions

* `Text.fitting`: the characters at the front of a text that fit into a number of bytes
* `Text.lines`: the lines of a text, without their ends
-/

namespace GoTree.Text

/-- The longest part at the front of a text that takes at most `n` bytes. -/
def fitting : Text → Nat → Text
  | [], _ => []
  | c :: t, n => if c.utf8Size ≤ n then c :: fitting t (n - c.utf8Size) else []

/-- **The lines of a text**, without their ends.  Nothing after the last line feed is no line. -/
def lines : Text → List Text
  | [] => []
  | '\n' :: t => [] :: lines t
  | '\r' :: '\n' :: t => [] :: lines t
  | c :: t =>
    match lines t with
    | [] => [[c]]
    | line :: more => (c :: line) :: more

end GoTree.Text
