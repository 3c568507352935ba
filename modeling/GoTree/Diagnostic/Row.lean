/-!
# Rows of characters

A row is filled by putting characters at columns.  What stood there is overwritten, and a gap in
front of them is filled with spaces.

## Main definitions

* `Row.put`: characters at a column
-/

namespace GoTree

/-- A row of characters, one a column. -/
abbrev Row := List Char

namespace Row

/-- **A row with `s` put at `column`.**  Nothing put changes nothing. -/
def put (row : Row) (column : Nat) (s : List Char) : Row :=
  if s.isEmpty then row
  else
    row.take column ++ List.replicate (column - row.length) ' ' ++ s ++ row.drop (column + s.length)

end Row

end GoTree
