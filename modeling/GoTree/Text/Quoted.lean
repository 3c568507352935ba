import GoTree.Unicode.GraphemeExtend
import GoTree.Unicode.Unprintable

/-!
# Quoted texts

A text between double quotes on one line: quotes, backslashes and line breaks are escaped, and so is
every character that could not be told apart in print.

## Main definitions

* `Quoted.hex`: a code point in lowercase hexadecimal digits
* `Quoted.joins`: whether a character would join the one before it
* `Quoted.escape`: one character inside the quotes
* `Quoted.quote`: a whole text
-/

namespace GoTree.Quoted

/-- A number in lowercase hexadecimal digits, without padding. -/
def hex (n : Nat) : List Char :=
  Nat.toDigits 16 n

/-- A character by its code point. -/
def codePoint (c : Char) : List Char :=
  ['\\', 'u', '\x7b'] ++ hex c.toNat ++ ['\x7d']

/-- **Whether `c` would join the character before it in print.**  The half-width sound marks of the
katakana continue a grapheme too, but they are printed in a place of their own. -/
def joins (c : Char) : Bool :=
  Unicode.isGraphemeExtend c && c != '\uff9e' && c != '\uff9f'

/-- **A character inside double quotes.**  Marks that would join the character before them, and
characters without a printed form, are given by code point. -/
def escape (c : Char) : List Char :=
  if c = '\x22' then ['\\', '\x22']
  else if c = '\\' then ['\\', '\\']
  else if c = '\n' then ['\\', 'n']
  else if c = '\r' then ['\\', 'r']
  else if c = '\t' then ['\\', 't']
  else if c = '\x00' then ['\\', '0']
  else if joins c || Unicode.isUnprintable c then codePoint c
  else [c]

/-- A text between double quotes. -/
def quote (s : String) : String :=
  String.ofList ('\x22' :: s.toList.flatMap escape ++ ['\x22'])

end GoTree.Quoted
