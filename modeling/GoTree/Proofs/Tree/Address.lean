import Mathlib.Tactic.Common
import GoTree.Proofs.Tree.Traversal
import GoTree.Tree.Descendants

/-!
# Every node once

A node of a tree is found at an address: which child to go to, level after level.  The recursive
traversal meets the nodes in the order of their addresses, each of them once, and a walk over a
stack meets them like that, too.

## Main definitions

* `Node.at?`: the node at an address
* `Node.located`: the nodes of a tree with their addresses
* `Node.Enumerates`: every node once, in the order of the addresses
* `Descendants.ahead`: the nodes that a walk has yet to meet

## Main results

* `Node.enumerates_located`, `Node.map_snd_located`: the recursive traversal meets every node once
* `Descendants.next_eq`, `Descendants.pull_eq`: what the calls of a walk hand out
-/

namespace GoTree

namespace Node

/-! ### Addresses -/

/-- **The node at an address**, which says for each level the child to go to. -/
def at? : Node → List Nat → Option Node
  | node, [] => some node
  | node, i :: address => node.children[i]?.bind fun child => child.at? address

mutual

/-- **The nodes of a tree with their addresses**, each node before what is below it. -/
def located : Node → List (List Nat × Node)
  | ⟨tags, token, label, children, start, stop⟩ =>
    ([], ⟨tags, token, label, children, start, stop⟩) :: locatedFrom 0 children

/-- The nodes of neighbouring children with their addresses; the first of them is child `i`. -/
def locatedFrom (i : Nat) : List Node → List (List Nat × Node)
  | [] => []
  | child :: rest => child.located.map (Prod.map (i :: ·) id) ++ locatedFrom (i + 1) rest

end

/-- **A list of the nodes of a tree with their addresses**: every node of the tree, and each of them
once, in the lexicographic order of the addresses.  A node comes before what is below it, and before
what is below a later child of a node above both. -/
structure Enumerates (node : Node) (list : List (List Nat × Node)) : Prop where
  mem_iff : ∀ address inner, (address, inner) ∈ list ↔ node.at? address = some inner
  ordered : list.Pairwise fun a b => a.1 < b.1

theorem located_eq (node : Node) : node.located = ([], node) :: locatedFrom 0 node.children := by
  cases node
  rfl

mutual

theorem map_snd_located : (node : Node) → node.located.map Prod.snd = node.preorder
  | ⟨tags, token, label, children, start, stop⟩ => by
    rw [located, preorder, List.map_cons, map_snd_locatedFrom 0 children]

theorem map_snd_locatedFrom (i : Nat) : (nodes : List Node) →
    (locatedFrom i nodes).map Prod.snd = preorderAll nodes
  | [] => rfl
  | node :: rest => by
    rw [locatedFrom, preorderAll, List.map_append, List.map_map, map_snd_locatedFrom (i + 1) rest,
      ← map_snd_located node]
    rfl

end

/-- What stands below neighbouring children stands below one of them. -/
theorem mem_locatedFrom_iff {i : Nat} {nodes : List Node} {address : List Nat} {inner : Node} :
    (address, inner) ∈ locatedFrom i nodes ↔
      ∃ j child rest, nodes[j]? = some child ∧ address = (i + j) :: rest ∧
        (rest, inner) ∈ child.located := by
  induction nodes generalizing i with
  | nil => simp [locatedFrom]
  | cons node nodes ih =>
    rw [locatedFrom, List.mem_append, List.mem_map, ih]
    constructor
    · rintro (⟨⟨rest, other⟩, hmem, heq⟩ | ⟨j, child, rest, hchild, rfl, hmem⟩)
      · obtain ⟨rfl, rfl⟩ := Prod.mk.inj heq
        exact ⟨0, node, rest, rfl, rfl, hmem⟩
      · exact ⟨j + 1, child, rest, hchild, by rw [Nat.add_assoc, Nat.add_comm 1], hmem⟩
    · rintro ⟨j, child, rest, hchild, rfl, hmem⟩
      cases j with
      | zero =>
        obtain rfl := Option.some.inj hchild
        exact .inl ⟨(rest, inner), hmem, rfl⟩
      | succ j =>
        exact .inr ⟨j, child, rest, hchild, by rw [Nat.add_assoc, Nat.add_comm 1], hmem⟩

/-- **A node is listed with an address** just if it stands there. -/
theorem mem_located_iff {node inner : Node} {address : List Nat} :
    (address, inner) ∈ node.located ↔ node.at? address = some inner := by
  induction address generalizing node with
  | nil =>
    have hbelow : ([], inner) ∉ locatedFrom 0 node.children := by
      simp [mem_locatedFrom_iff]
    rw [located_eq, List.mem_cons, or_iff_left hbelow, at?, Prod.mk.injEq, Option.some.injEq]
    simp [eq_comm]
  | cons i address ih =>
    rw [located_eq, List.mem_cons, or_iff_right (by simp), mem_locatedFrom_iff, at?,
      Option.bind_eq_some_iff]
    constructor
    · rintro ⟨j, child, rest, hchild, heq, hmem⟩
      obtain ⟨hi, rfl⟩ := List.cons.inj heq
      rw [Nat.zero_add] at hi
      exact ⟨child, hi ▸ hchild, ih.1 hmem⟩
    · rintro ⟨child, hchild, hinner⟩
      exact ⟨i, child, address, hchild, by rw [Nat.zero_add], ih.2 hinner⟩

/-- What is below a child comes before what is below a later one. -/
theorem lt_of_mem_locatedFrom {i : Nat} {child : Node} {rest : List Node}
    {a b : List Nat × Node} (ha : a ∈ child.located.map (Prod.map (i :: ·) id))
    (hb : b ∈ locatedFrom (i + 1) rest) : a.1 < b.1 := by
  obtain ⟨x, -, rfl⟩ := List.mem_map.1 ha
  obtain ⟨j, -, address, -, haddress, -⟩ := mem_locatedFrom_iff.1 hb
  rw [haddress]
  exact List.cons_lt_cons_iff.2 (.inl (by omega))

mutual

theorem pairwise_located : (node : Node) → node.located.Pairwise fun a b => a.1 < b.1
  | ⟨tags, token, label, children, start, stop⟩ => by
    rw [located, List.pairwise_cons]
    refine ⟨?_, pairwise_locatedFrom 0 children⟩
    rintro ⟨address, inner⟩ hmem
    obtain ⟨j, -, rest, -, rfl, -⟩ := mem_locatedFrom_iff.1 hmem
    exact List.nil_lt_cons ..

theorem pairwise_locatedFrom (i : Nat) : (nodes : List Node) →
    (locatedFrom i nodes).Pairwise fun a b => a.1 < b.1
  | [] => .nil
  | node :: rest => by
    rw [locatedFrom, List.pairwise_append, List.pairwise_map]
    refine ⟨(pairwise_located node).imp ?_, pairwise_locatedFrom (i + 1) rest,
      fun a ha b hb => lt_of_mem_locatedFrom ha hb⟩
    exact fun hlt => List.cons_lt_cons_iff.2 (.inr ⟨rfl, hlt⟩)

end

/-- **Every node is listed once**, in the order of the addresses. -/
theorem enumerates_located (node : Node) : node.Enumerates node.located :=
  ⟨fun _ _ => mem_located_iff, pairwise_located node⟩

end Node

/-! ### Walks -/

namespace Descendants

/-- **The nodes that a walk has yet to meet**, tree after tree. -/
def ahead (walk : Descendants) : List Node :=
  Node.preorderAll walk.stack.toList.reverse

@[simp]
theorem ahead_ofNode (node : Node) : (ofNode node).ahead = node.preorder := by
  simp [ofNode, ahead]

/-- **One call** hands out the first of the nodes ahead, and the others stay ahead. -/
theorem next_eq (walk : Descendants) :
    walk.next.1 = walk.ahead.head? ∧ walk.next.2.ahead = walk.ahead.tail := by
  obtain ⟨stack⟩ := walk
  cases hback : stack.back? with
  | none =>
    have hempty : stack.toList = [] := by
      rwa [← Array.getLast?_toList, List.getLast?_eq_none_iff] at hback
    simp [next, ahead, hback, hempty]
  | some node =>
    obtain ⟨below, hstack⟩ : ∃ below, stack.toList = below ++ [node] := by
      rwa [← Array.getLast?_toList, List.getLast?_eq_some_iff] at hback
    -- the children in reverse on the stack are the children in order ahead
    have hahead : (⟨stack⟩ : Descendants).ahead =
        node :: Node.preorderAll (node.children ++ below.reverse) := by
      rw [ahead, hstack, List.reverse_append, List.reverse_singleton, List.singleton_append,
        Node.preorderAll_cons, Node.preorder_eq, List.cons_append, Node.preorderAll_append]
    rw [hahead]
    simp [next, ahead, hback, hstack]

/-- **Several calls** hand out the nodes ahead, and then nothing again and again. -/
theorem pull_eq (n : Nat) (walk : Descendants) :
    (walk.pull n).1 =
        (walk.ahead.map some).take n ++ List.replicate (n - walk.ahead.length) none ∧
      (walk.pull n).2.ahead = walk.ahead.drop n := by
  induction n generalizing walk with
  | zero => simp [pull]
  | succ n ih =>
    obtain ⟨hfirst, hrest⟩ := walk.next_eq
    obtain ⟨hpull, hleft⟩ := ih walk.next.2
    rw [pull, hpull, hleft, hfirst, hrest]
    cases walk.ahead with
    | nil => simp [List.replicate_succ]
    | cons node nodes => simp

end Descendants

end GoTree
