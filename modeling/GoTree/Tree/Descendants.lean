import GoTree.Tree.Node

/-!
# Walks over a tree

A walk hands out the nodes of a tree one at a time.  It keeps a stack of the nodes that are still
ahead, each of them for itself and all below it, and the one that comes next is the last.  When no
node is ahead it hands out nothing, as often as it is asked.

## Main definitions

* `Descendants`, `Descendants.ofNode`: a walk, and the one that starts at a node
* `Descendants.next`, `Descendants.pull`: the answer of one call, and those of several
-/

namespace GoTree

/-- **A walk over a tree:** the nodes that are still ahead, the next one last. -/
structure Descendants where
  stack : Array Node

namespace Descendants

/-- The walk that starts at a node. -/
def ofNode (node : Node) : Descendants :=
  ⟨#[node]⟩

/-- **The next node**, if one is ahead, and the walk behind it.  The node leaves the stack, and its
children are put there from the last to the first. -/
def next (walk : Descendants) : Option Node × Descendants :=
  match walk.stack.back? with
  | none => (none, walk)
  | some node => (some node, ⟨walk.stack.pop ++ node.children.reverse⟩)

/-- The answers of `n` calls, and the walk behind them. -/
def pull : (n : Nat) → Descendants → List (Option Node) × Descendants
  | 0, walk => ([], walk)
  | n + 1, walk => (walk.next.1 :: (pull n walk.next.2).1, (pull n walk.next.2).2)

end Descendants

end GoTree
