import GoTree.Text.Quoted
import GoTree.Tree.Node

/-!
# Dumps

A tree as text, one node a line, two spaces a level: the tags in brackets, the label, and for a leaf
its text in quotes and its position.

## Main definitions

* `Node.dumpLine`: the line of one node
* `Node.dump`: the lines of a tree
-/

namespace GoTree.Node

/-- The tags of a node, separated by commas. -/
def tagNames (node : Node) : String :=
  ",".intercalate (node.tags.map Tag.name)

/-- **The line of a node** at nesting depth `depth`, without its line feed. -/
def dumpLine (depth : Nat) (node : Node) : String :=
  String.ofList (List.replicate (2 * depth) ' ') ++ "[" ++ node.tagNames ++ "]"
    ++ (if node.label.isEmpty then "" else " " ++ node.label)
    ++ (match node.token with
        | some token =>
          " " ++ Quoted.quote token.value ++ " " ++ toString token.line ++ ":"
            ++ toString token.column
        | none => "")

mutual

/-- The lines of a tree whose root is at nesting depth `depth`. -/
def dumpLines (depth : Nat) : Node → List String
  | ⟨tags, token, label, children, start, stop⟩ =>
    dumpLine depth ⟨tags, token, label, children, start, stop⟩ :: dumpLinesAll (depth + 1) children

/-- The lines of several trees. -/
def dumpLinesAll (depth : Nat) : List Node → List String
  | [] => []
  | node :: rest => dumpLines depth node ++ dumpLinesAll depth rest

end

/-- **A tree as text**, one node a line. -/
def dump (node : Node) : String :=
  String.join ((node.dumpLines 0).map (· ++ "\n"))

end GoTree.Node
