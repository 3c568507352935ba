import GoTree.Mapping.Gap

/-!
# The words of a gap

The tokens a gap may hold are told apart by their first bytes, so some bytes start with at most one
of them, and it is found.

## Main definitions

* `impliedWords`: the tokens a gap may hold

## Main results

* `impliedPrefix?_eq_some_iff`: the word at the front of some bytes
* `impliedPrefix?_eq_none_iff`: bytes that start with none of the words
-/

namespace GoTree

/-- **The tokens a gap may hold.**  No two of them start with the same byte. -/
def impliedWords : List String :=
  [Symbol.comma.spelling, Symbol.semicolon.spelling, Symbol.dot.spelling,
   Symbol.leftBracket.spelling, Symbol.rightBracket.spelling, Symbol.assign.spelling,
   Symbol.colon.spelling, Keyword.typeKw.spelling, Keyword.rangeKw.spelling,
   Keyword.elseKw.spelling, Keyword.chanKw.spelling, Symbol.arrow.spelling]

/-- Implied tokens have bytes, all of them below `0x80` and none of them blank. -/
theorem wordBytes_of_mem {word : String} (h : word ∈ impliedWords) :
    wordBytes word ≠ [] ∧ ∀ b ∈ wordBytes word, b < 0x80 ∧ isSpaceByte b = false := by
  have hall : (impliedWords.all fun word => !(wordBytes word).isEmpty &&
      (wordBytes word).all fun b => decide (b < 0x80) && !isSpaceByte b) = true := by decide
  have hword := List.all_eq_true.1 hall word h
  simpa using hword

/-- Every byte leads to one of the words. -/
theorem mem_impliedWords_of_impliedFrom? {lead : UInt8} {word : String}
    (h : impliedFrom? lead = some word) : word ∈ impliedWords := by
  unfold impliedFrom? at h
  split at h <;> cases h <;> decide

/-- Every word is led to by its first byte. -/
theorem impliedFrom?_of_mem {word : String} (h : word ∈ impliedWords) :
    (wordBytes word).head?.bind impliedFrom? = some word := by
  have hall : ∀ word ∈ impliedWords, (wordBytes word).head?.bind impliedFrom? = some word := by
    decide
  exact hall word h

/-- **The word that some bytes start with.** -/
theorem impliedPrefix?_eq_some_iff {bs : List UInt8} {word : String} :
    impliedPrefix? bs = some word ↔ word ∈ impliedWords ∧ wordBytes word <+: bs := by
  rw [impliedPrefix?, Option.filter_eq_some_iff, List.isPrefixOf_iff_prefix]
  refine and_congr_left fun hprefix => ⟨fun h => ?_, fun h => ?_⟩
  · obtain ⟨lead, -, hlead⟩ := Option.bind_eq_some_iff.1 h
    exact mem_impliedWords_of_impliedFrom? hlead
  · obtain ⟨rest, rfl⟩ := hprefix
    obtain ⟨lead, hhead, hlead⟩ := Option.bind_eq_some_iff.1 (impliedFrom?_of_mem h)
    rw [List.head?_append, hhead]
    exact hlead

theorem impliedPrefix?_eq_none_iff {bs : List UInt8} :
    impliedPrefix? bs = none ↔ ∀ word ∈ impliedWords, ¬ wordBytes word <+: bs := by
  simp only [Option.eq_none_iff_forall_ne_some, ne_eq, impliedPrefix?_eq_some_iff, not_and]

/-- **Implied tokens are recognized** by their first bytes. -/
theorem impliedPrefix?_append {word : String} (h : word ∈ impliedWords) (rest : List UInt8) :
    impliedPrefix? (wordBytes word ++ rest) = some word :=
  impliedPrefix?_eq_some_iff.2 ⟨h, List.prefix_append _ rest⟩

end GoTree
