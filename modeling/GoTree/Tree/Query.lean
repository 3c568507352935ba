import GoTree.Tree.Node

/-!
# Finding nodes by label

Labels have the form `field(Kind)`.  A path of names leads from a node to one below it: each name
picks the first child whose label is the name, or starts with the name and a parenthesis.

## Main definitions

* `Node.answersTo`: whether a label matches a name
* `Node.child?`, `Node.query?`: one step, and a whole path
-/

namespace GoTree.Node

/-- Whether the label of a node is `name`, or has `name` before its first parenthesis. -/
def answersTo (node : Node) (name : String) : Bool :=
  node.label == name ||
    (node.label.toList.contains '(' && node.label.toList.takeWhile (· != '(') == name.toList)

/-- The first child that answers to `name`. -/
def child? (node : Node) (name : String) : Option Node :=
  node.children.find? (·.answersTo name)

/-- The node at the end of a path of names. -/
def follow? : Node → List String → Option Node
  | node, [] => some node
  | node, name :: rest => (node.child? name).bind (·.follow? rest)

/-- **The node at the end of a path** of names separated by slashes; the empty path stays. -/
def query? (node : Node) (path : String) : Option Node :=
  if path.isEmpty then some node else node.follow? (path.splitOn "/")

end GoTree.Node
