/-!
# JSON texts

Values of strings, natural numbers, arrays and objects, written over several lines with two spaces a
level.  The fields of an object are written in the order in which they are given.

## Main definitions

* `Json`, `JsonField`: the values
* `Json.escape`, `Json.quote`: characters and strings inside double quotes
* `Json.pretty`: a value as text
-/

namespace GoTree

mutual

/-- A JSON value. -/
inductive Json where
  | string (s : String)
  | number (n : Nat)
  | array (items : List Json)
  | object (fields : List JsonField)

/-- A named field of an object. -/
structure JsonField where
  name : String
  value : Json

end

namespace Json

/-- A hexadecimal digit in lower case. -/
def hexDigit (n : Nat) : Char :=
  Nat.digitChar n

/-- **A character inside double quotes.**  Quotes, backslashes and controls are escaped. -/
def escape (c : Char) : List Char :=
  if c = '\x22' then ['\\', '\x22']
  else if c = '\\' then ['\\', '\\']
  else if c = '\x08' then ['\\', 'b']
  else if c = '\x0c' then ['\\', 'f']
  else if c = '\n' then ['\\', 'n']
  else if c = '\r' then ['\\', 'r']
  else if c = '\t' then ['\\', 't']
  else if c.toNat < 0x20 then ['\\', 'u', '0', '0', hexDigit (c.toNat / 16), hexDigit (c.toNat % 16)]
  else [c]

/-- A string between double quotes. -/
def quote (s : String) : String :=
  String.ofList ('\x22' :: s.toList.flatMap escape ++ ['\x22'])

/-- The blanks before an entry at nesting depth `depth`. -/
def margin (depth : Nat) : String :=
  String.ofList (List.replicate (2 * depth) ' ')

/-- Entries one a line between an opening and a closing text, or the two texts alone. -/
def enclose (depth : Nat) (opening closing : String) (entries : List String) : String :=
  if entries.isEmpty then opening ++ closing
  else opening ++ "\n" ++ ",\n".intercalate (entries.map (margin (depth + 1) ++ ·)) ++ "\n"
    ++ margin depth ++ closing

mutual

/-- A value whose first line is already indented to `depth`. -/
def prettyAt (depth : Nat) : Json → String
  | .string s => quote s
  | .number n => toString n
  | .array items => enclose depth "[" "]" (prettyItems depth items)
  | .object fields => enclose depth "\x7b" "\x7d" (prettyFields depth fields)

/-- The items of an array. -/
def prettyItems (depth : Nat) : List Json → List String
  | [] => []
  | item :: rest => item.prettyAt (depth + 1) :: prettyItems depth rest

/-- The fields of an object. -/
def prettyFields (depth : Nat) : List JsonField → List String
  | [] => []
  | field :: rest => prettyField depth field :: prettyFields depth rest

/-- A field of an object. -/
def prettyField (depth : Nat) : JsonField → String
  | ⟨name, value⟩ => quote name ++ ": " ++ value.prettyAt (depth + 1)

end

/-- **A value as text** over several lines. -/
def pretty (value : Json) : String :=
  value.prettyAt 0

end Json

end GoTree
