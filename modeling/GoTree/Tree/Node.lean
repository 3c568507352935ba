import GoTree.Text.Position
import GoTree.Tree.Tag

/-!
# The generic tree

A node of the generic tree carries tags, a label that tells where it comes from, the bytes it spans,
and either the source text of a leaf or children.

## Main definitions

* `LeafToken`, `Node`: the text of a leaf, and nodes
* `Node.leaf`, `Node.group?`: how nodes are made
* `Node.preorder`: a node and all below it, by recursion
* `Node.descendants`, `Node.leaves`: the same sequence by a worklist, and its nodes without children
-/

namespace GoTree

/-- The source text of a leaf and the position of its first character. -/
structure LeafToken where
  value : String
  line : Nat
  column : Nat
deriving DecidableEq, Repr

/-- A node of the generic tree; `start` and `stop` delimit the bytes it spans. -/
structure Node where
  tags : List Tag
  token : Option LeafToken
  label : String
  children : List Node
  start : Nat
  stop : Nat

namespace Node

/-- A node with source text of its own. -/
def leaf (tags : List Tag) (label : String) (token : LeafToken) (start stop : Nat) : Node :=
  ⟨tags, some token, label, [], start, stop⟩

/-- **A node over children**, which spans from the start of the first to the end of the last; there
is no such node without children. -/
def group? (tags : List Tag) (label : String) (children : List Node) : Option Node :=
  match children.head?, children.getLast? with
  | some first, some last => some ⟨tags, none, label, children, first.start, max last.stop first.start⟩
  | _, _ => none

/-- Whether a node has no children. -/
def isLeaf (node : Node) : Bool :=
  node.children.isEmpty

/-- Whether a node carries a tag. -/
def hasTag (node : Node) (tag : Tag) : Bool :=
  node.tags.contains tag

/-- The source text of a leaf, empty for other nodes. -/
def value (node : Node) : String :=
  (node.token.map LeafToken.value).getD ""

/-! ### Traversals -/

mutual

/-- **A node and all below it**, each before what is below it. -/
def preorder : Node → List Node
  | ⟨tags, token, label, children, start, stop⟩ =>
    ⟨tags, token, label, children, start, stop⟩ :: preorderAll children

/-- The nodes of several trees, tree after tree. -/
def preorderAll : List Node → List Node
  | [] => []
  | node :: rest => preorder node ++ preorderAll rest

end

mutual

/-- The number of nodes of a tree. -/
def count : Node → Nat
  | ⟨_, _, _, children, _, _⟩ => countAll children + 1

/-- The number of nodes of several trees. -/
def countAll : List Node → Nat
  | [] => 0
  | node :: rest => count node + countAll rest

end

/-- The first `n` nodes met by a walk that takes the first tree of its worklist and puts the
children in its place. -/
def walk : (n : Nat) → (worklist : List Node) → List Node
  | 0, _ => []
  | _ + 1, [] => []
  | n + 1, node :: rest => node :: walk n (node.children ++ rest)

/-- **The nodes of a tree**, met by a walk over a worklist. -/
def descendants (node : Node) : List Node :=
  walk node.count [node]

/-- The nodes without children, in order. -/
def leaves (node : Node) : List Node :=
  node.descendants.filter isLeaf

/-! ### Nodes as made -/

@[simp]
theorem group?_nil (tags : List Tag) (label : String) : group? tags label [] = none := rfl

theorem group?_cons (tags : List Tag) (label : String) (first : Node) (rest : List Node) :
    ∃ last, (first :: rest).getLast? = some last ∧
      group? tags label (first :: rest) =
        some ⟨tags, none, label, first :: rest, first.start, max last.stop first.start⟩ := by
  obtain ⟨last, hlast⟩ : ∃ last, (first :: rest).getLast? = some last :=
    Option.isSome_iff_exists.1 (by simp)
  exact ⟨last, hlast, by simp [group?, hlast]⟩

end Node

end GoTree
