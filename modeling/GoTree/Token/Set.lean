import GoTree.Token.Kind

/-!
# Sets of token kinds

The grammar asks whether a token may start or end a construct.  A set of kinds answers by its
membership test.
-/

namespace GoTree.Token

/-- A set of token kinds, given by its membership test. -/
structure KindSet where
  contains : Kind → Bool

namespace KindSet

/-- The set without members. -/
def empty : KindSet := ⟨fun _ => false⟩

/-- The set of the listed kinds. -/
def ofList (kinds : List Kind) : KindSet := ⟨fun k => decide (k ∈ kinds)⟩

/-- The kinds in either set. -/
def union (a b : KindSet) : KindSet := ⟨fun k => a.contains k || b.contains k⟩

@[simp]
theorem contains_empty (k : Kind) : empty.contains k = false := rfl

@[simp]
theorem contains_ofList (kinds : List Kind) (k : Kind) :
    (ofList kinds).contains k = true ↔ k ∈ kinds := by
  simp [ofList]

@[simp]
theorem contains_union (a b : KindSet) (k : Kind) :
    (a.union b).contains k = (a.contains k || b.contains k) := rfl

end KindSet

end GoTree.Token
