import GoTree.Mapping.Assembly

/-!
# Plans

What a construct of the syntax tree looks like in the generic tree, before the text is consulted: a
token expected at an offset, or a group of parts in source order.  **Realizing** a plan checks its
tokens against the text and fills the gaps between its parts.

## Main definitions

* `Plan`: tokens and groups
* `Plan.keyword`, `Plan.symbol`: tokens with a fixed spelling
* `Mapping.realize`: the node a plan makes with a text
-/

namespace GoTree

/-- What a construct looks like in the generic tree. -/
inductive Plan where
  /-- A construct without a node. -/
  | nothing
  /-- A token that must stand at `pos`. -/
  | token (tags : List Tag) (pos : Offset) (text label : String)
  /-- Parts in source order. -/
  | group (tags : List Tag) (label : String) (parts : List Plan)

namespace Plan

/-- A keyword at `pos`, tagged as one after its other tags. -/
def keyword (tags : List Tag) (pos : Offset) (word : Keyword) (label : String) : Plan :=
  .token (tags ++ [.keyword]) pos word.spelling label

/-- A symbol at `pos`. -/
def symbol (tags : List Tag) (pos : Offset) (s : Symbol) (label : String) : Plan :=
  .token tags pos s.spelling label

/-- A symbol at an offset that may be absent. -/
def symbol? (tags : List Tag) (pos : Option Offset) (s : Symbol) (label : String) : List Plan :=
  (pos.map fun p => symbol tags p s label).toList

/-- A keyword at an offset that may be absent. -/
def keyword? (tags : List Tag) (pos : Option Offset) (word : Keyword) (label : String) :
    List Plan :=
  (pos.map fun p => keyword tags p word label).toList

/-- The label of a part: the field it fills and the construct it is. -/
def labelOf (field construct : String) : String :=
  field ++ "(" ++ construct ++ ")"

/-- The field name of the element at index `i` of a list. -/
def elementField (i : Nat) : String :=
  "[" ++ toString i ++ "]"

/-- Plans for the elements of a list from index `i` on, each given its field name. -/
def elementsFrom {α : Type} (plan : α → String → Plan) : (i : Nat) → List α → List Plan
  | _, [] => []
  | i, a :: rest => plan a (elementField i) :: elementsFrom plan (i + 1) rest

/-- **The tags of a part** in a role, which is an expression if the whole is one. -/
def nested (whole role : List Tag) : List Tag :=
  if whole.contains .expression then role ++ [.expression] else role

end Plan

namespace Mapping

mutual

/-- **The node a plan makes with the text**, if it makes one. -/
def realize (m : Mapping) : Plan → CommentCursor → Except MapError (Option Node × CommentCursor)
  | .nothing, cursor => .ok (none, cursor)
  | .token tags pos text label, cursor =>
    match m.expect tags pos text label with
    | .ok leaf => .ok (leaf, cursor)
    | .error e => .error e
  | .group tags label parts, cursor =>
    match realizeAll m parts [] cursor with
    | .ok (children, cursor) => .ok (Node.group? tags label children, cursor)
    | .error e => .error e

/-- The nodes of several plans, appended to `children` one after the other. -/
def realizeAll (m : Mapping) : List Plan → (children : List Node) → CommentCursor →
    Except MapError (List Node × CommentCursor)
  | [], children, cursor => .ok (children, cursor)
  | part :: rest, children, cursor =>
    match realize m part cursor with
    | .error e => .error e
    | .ok (child, cursor) =>
      match m.append children child cursor with
      | .error e => .error e
      | .ok (children, cursor) => realizeAll m rest children cursor

end

end Mapping

end GoTree
