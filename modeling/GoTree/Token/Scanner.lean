import GoTree.Token.Basic

/-!
# Scanners

A scanner reads a text one character at a time.  It holds what is left to read, and how many bytes
were left where the token under way starts; every offset is worked out from these lengths.

A reader may find nothing.  Distances between offsets are taken with care: a scanner whose lengths
are out of order has no offsets.  And a loop is given up when it goes on for more turns than there
are characters left, as then one of its turns has read nothing and all later ones would do the same.

## Main definitions

* `Scanner`, `Scanner.ofText`: a scanner, and the one at the front of a text
* `Scanner.advance`, `Scanner.begin`: reading a character, and starting a token
* `Scanner.range?`: the offsets of what is read of the token under way
* `Scan`: readers of characters
* `Scan.peek`, `Scan.advance`, `Scan.eat`: looking at characters and reading them
* `Scan.loop`, `Scan.advanceWhile`: reading again and again
-/

namespace GoTree

/-- The distance from `start` to `stop`, or `none` when they are out of order. -/
def distance? (start stop : Offset) : Option Nat :=
  if start ≤ stop then some (stop - start) else none

/-- **A scanner.** -/
structure Scanner where
  text : Text
  /-- What is left to read. -/
  rest : Text
  /-- How many bytes were left where the token under way starts. -/
  tokenLeft : Nat
deriving DecidableEq, Repr

namespace Scanner

/-- The scanner at the front of a text. -/
def ofText (t : Text) : Scanner :=
  ⟨t, t, t.size⟩

/-- Reads a character, if one is left. -/
def advance (s : Scanner) : Scanner :=
  { s with rest := s.rest.tail }

/-- Starts a token where the scanner stands. -/
def begin (s : Scanner) : Scanner :=
  { s with tokenLeft := s.rest.size }

/-- The offset at which the scanner stands. -/
def offset? (s : Scanner) : Option Offset :=
  distance? s.rest.size s.text.size

/-- **The offsets between which the scanner has read** since it started the token. -/
def range? (s : Scanner) : Option (Offset × Offset) :=
  s.offset?.bind fun stop =>
    (distance? s.rest.size s.tokenLeft).bind fun width =>
      (distance? width stop).map fun start => (start, stop)

/-- The characters that the scanner has read since it started the token. -/
def tokenText? (s : Scanner) : Option Text :=
  s.range?.bind fun (start, stop) => s.text.slice? start stop

end Scanner

/-- **A reader of characters:** what it finds, and the scanner behind it. -/
abbrev Scan : Type → Type :=
  StateT Scanner Option

namespace Scan

variable {α : Type}

/-! ### Characters -/

/-- What stands for the next character at the end of the text, where there is none. -/
def endMark : Char := '\x00'

/-- Whether nothing is left to read. -/
def isAtEnd : Scan Bool := do
  pure (← get).rest.isEmpty

/-- The next character, without reading it. -/
def peek : Scan Char := do
  pure ((← get).rest.headD endMark)

/-- The character after the next. -/
def peekSecond : Scan Char := do
  pure ((← get).rest.tail.headD endMark)

/-- Reads the next character. -/
def advance : Scan Char := do
  let c ← peek
  modify Scanner.advance
  pure c

/-- Reads the next character if it is `expected`, and says whether it was. -/
def eat (expected : Char) : Scan Bool := do
  if !(← isAtEnd) && (← peek) == expected then
    let _ ← advance
    pure true
  else
    pure false

/-! ### The token under way -/

/-- The offset at which the scanner stands. -/
def offset : Scan Offset := do
  (← get).offset?

/-- What is read of the token under way. -/
def tokenText : Scan Text := do
  (← get).tokenText?

/-! ### Loops -/

/-- Repeats a turn until it gives a result, at most `n` times. -/
def loopFrom (turn : Scan (Option α)) : (n : Nat) → Scan α
  | 0 => failure
  | n + 1 => do
    match ← turn with
    | some a => pure a
    | none => loopFrom turn n

/-- **Repeats a turn until it gives a result.** -/
def loop (turn : Scan (Option α)) : Scan α := do
  loopFrom turn ((← get).rest.length + 1)

/-- Reads the next character if it satisfies `p`, and is done otherwise. -/
def advanceTurn (p : Char → Bool) : Scan (Option Unit) := do
  if !(← isAtEnd) && p (← peek) then
    let _ ← advance
    pure none
  else
    pure (some ())

/-- Reads on for as long as the next character satisfies `p`. -/
def advanceWhile (p : Char → Bool) : Scan Unit :=
  loop (advanceTurn p)

end Scan

end GoTree
