import Mathlib.Tactic.Common
import GoTree.Tree.Node

/-!
# Traversals of the generic tree

The walk over a worklist meets the nodes of a tree in the order of the recursive traversal.  The
leaves of a node with children are the leaves of its children, one child after the other.

## Main results

* `Node.descendants_eq_preorder`: the walk is the recursive traversal
* `Node.leaves_of_isLeaf`, `Node.leaves_of_not_isLeaf`: the leaves of a node by its children
-/

namespace GoTree.Node

@[simp]
theorem preorderAll_nil : preorderAll [] = [] := rfl

@[simp]
theorem preorderAll_cons (node : Node) (rest : List Node) :
    preorderAll (node :: rest) = preorder node ++ preorderAll rest := rfl

theorem preorder_eq (node : Node) : preorder node = node :: preorderAll node.children := by
  cases node
  rfl

theorem preorderAll_append (nodes rest : List Node) :
    preorderAll (nodes ++ rest) = preorderAll nodes ++ preorderAll rest := by
  induction nodes with
  | nil => rfl
  | cons node nodes ih => simp [ih]

theorem preorderAll_eq_flatMap (nodes : List Node) :
    preorderAll nodes = nodes.flatMap preorder := by
  induction nodes with
  | nil => rfl
  | cons node nodes ih => simp [ih]

theorem count_eq (node : Node) : count node = countAll node.children + 1 := by
  cases node
  rfl

theorem countAll_append (nodes rest : List Node) :
    countAll (nodes ++ rest) = countAll nodes + countAll rest := by
  induction nodes with
  | nil => simp [countAll]
  | cons node nodes ih => simp [countAll, ih, Nat.add_assoc]

/-- A walk with enough rounds meets the nodes of its worklist tree after tree. -/
theorem walk_eq_preorderAll {n : Nat} {worklist : List Node} (h : countAll worklist ≤ n) :
    walk n worklist = preorderAll worklist := by
  induction n generalizing worklist with
  | zero =>
    cases worklist with
    | nil => rfl
    | cons node rest =>
      rw [countAll, count_eq] at h
      omega
  | succ n ih =>
    cases worklist with
    | nil => rfl
    | cons node rest =>
      rw [countAll, count_eq] at h
      have hrest : countAll (node.children ++ rest) ≤ n := by
        rw [countAll_append]
        omega
      rw [walk, ih hrest, preorderAll_append, preorderAll_cons, preorder_eq, List.cons_append]

/-- **The walk over a worklist is the recursive traversal.** -/
theorem descendants_eq_preorder (node : Node) : node.descendants = node.preorder := by
  rw [descendants, walk_eq_preorderAll (by simp [countAll])]
  simp

theorem leaves_eq (node : Node) : node.leaves = node.preorder.filter isLeaf := by
  rw [leaves, descendants_eq_preorder]

theorem leaves_of_isLeaf {node : Node} (h : node.isLeaf = true) : node.leaves = [node] := by
  have hnil : node.children = [] := List.isEmpty_iff.1 h
  rw [leaves_eq, preorder_eq, hnil]
  simp [h]

/-- **The leaves of a node with children** are those of its children. -/
theorem leaves_of_not_isLeaf {node : Node} (h : node.isLeaf = false) :
    node.leaves = node.children.flatMap leaves := by
  rw [leaves_eq, preorder_eq, preorderAll_eq_flatMap, List.filter_cons_of_neg (by simp [h]),
    List.filter_flatMap]
  simp only [← leaves_eq]

theorem leaves_mk {tags : List Tag} {token : Option LeafToken} {label : String}
    {children : List Node} {start stop : Nat} (h : children ≠ []) :
    leaves ⟨tags, token, label, children, start, stop⟩ = children.flatMap leaves := by
  apply leaves_of_not_isLeaf
  simpa [isLeaf] using h

end GoTree.Node
