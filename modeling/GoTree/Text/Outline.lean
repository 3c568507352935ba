import GoTree.Text.Quoted

/-!
# Outlines

A nested value written out for a reader: records with named fields, named tuples, lists and plain
words.  An outline is laid out on one line or over several lines with one entry on each.

## Main definitions

* `Outline`: the nested value
* `Outline.oneLine`: everything on one line
* `Outline.indented`: one entry a line, four spaces a level
-/

namespace GoTree

mutual

/-- A nested value to be written out. -/
inductive Outline where
  /-- A word, number or quoted text. -/
  | word (text : String)
  /-- A name and named entries between braces. -/
  | record (name : String) (fields : List OutlineField)
  /-- A name, possibly empty, and entries between parentheses. -/
  | tuple (name : String) (items : List Outline)
  /-- Entries between brackets. -/
  | list (items : List Outline)

/-- A named entry of a record. -/
structure OutlineField where
  name : String
  value : Outline

end

namespace Outline

/-! ### Common values -/

/-- A number. -/
def number (n : Nat) : Outline := .word (toString n)

/-- A quoted text. -/
def text (s : String) : Outline := .word (Quoted.quote s)

/-- A truth value. -/
def truth (b : Bool) : Outline := .word (if b then "true" else "false")

/-- An absent value. -/
def absent : Outline := .word "None"

/-- A present value. -/
def present (value : Outline) : Outline := .tuple "Some" [value]

/-- A value that may be absent, given by how it is written when present. -/
def option {α : Type} (write : α → Outline) : Option α → Outline
  | none => absent
  | some a => present (write a)

/-! ### Layout on one line -/

mutual

/-- An outline on one line. -/
def oneLine : Outline → String
  | .word text => text
  | .record name fields => name ++ " \x7b " ++ ", ".intercalate (fieldLines fields) ++ " \x7d"
  | .tuple name items => name ++ "(" ++ ", ".intercalate (itemLines items) ++ ")"
  | .list items => "[" ++ ", ".intercalate (itemLines items) ++ "]"

/-- Each item on one line. -/
def itemLines : List Outline → List String
  | [] => []
  | item :: rest => item.oneLine :: itemLines rest

/-- Each field on one line. -/
def fieldLines : List OutlineField → List String
  | [] => []
  | field :: rest => fieldLine field :: fieldLines rest

/-- A field on one line. -/
def fieldLine : OutlineField → String
  | ⟨name, value⟩ => name ++ ": " ++ value.oneLine

end

/-! ### Layout over several lines -/

/-- The blanks before an entry at nesting depth `depth`. -/
def margin (depth : Nat) : String :=
  String.ofList (List.replicate (4 * depth) ' ')

/-- Entries one a line between an opening and a closing text, or the two texts alone. -/
def enclose (depth : Nat) (opening closing : String) (entries : List String) : String :=
  if entries.isEmpty then opening ++ closing
  else opening ++ "\n" ++ String.join (entries.map fun entry => margin (depth + 1) ++ entry ++ ",\n")
    ++ margin depth ++ closing

mutual

/-- An outline over several lines, the first of which is already indented to `depth`. -/
def indented (depth : Nat) : Outline → String
  | .word text => text
  | .record name fields => enclose depth (name ++ " \x7b") "\x7d" (indentedFields depth fields)
  | .tuple name items => enclose depth (name ++ "(") ")" (indentedItems depth items)
  | .list items => enclose depth "[" "]" (indentedItems depth items)

/-- Each item one level deeper. -/
def indentedItems (depth : Nat) : List Outline → List String
  | [] => []
  | item :: rest => item.indented (depth + 1) :: indentedItems depth rest

/-- Each field one level deeper. -/
def indentedFields (depth : Nat) : List OutlineField → List String
  | [] => []
  | field :: rest => indentedField depth field :: indentedFields depth rest

/-- A field one level deeper. -/
def indentedField (depth : Nat) : OutlineField → String
  | ⟨name, value⟩ => name ++ ": " ++ value.indented (depth + 1)

end

end Outline

end GoTree
