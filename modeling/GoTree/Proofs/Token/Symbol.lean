import GoTree.Token.Symbol

/-!
# The longest symbol

At any place of a text, the longest spelling that fits is the symbol that stands there.  It is the
longest one as soon as none of the symbols that go on from it fits, so a reader that has tried those
before has found it.

## Main definitions

* `Symbol.ofChars?`, `Symbol.longest?`: symbols by their spelling
* `Symbol.extensions`: the symbols that go on from a symbol

## Main results

* `Symbol.longest?_eq_some_iff`: the longest symbol at the front of a text
* `Symbol.longest?_of_extensions`: a symbol that nothing extends
-/

namespace GoTree

namespace Symbol

/-- The symbol with the given spelling. -/
def ofChars? (t : Text) : Option Symbol :=
  all.find? fun s => s.chars = t

/-- **Longest match:** the longest symbol that `t` starts with.  No symbol has more than three
characters. -/
def longest? (t : Text) : Option Symbol :=
  (ofChars? (t.take 3)).or ((ofChars? (t.take 2)).or (ofChars? (t.take 1)))

variable {t : Text} {s : Symbol}

theorem ofChars?_eq_some (h : ofChars? t = some s) : s.chars = t := by
  simpa using List.find?_some h

theorem ofChars?_chars (s : Symbol) : ofChars? s.chars = some s := by
  cases s <;> decide

theorem chars_injective {s s' : Symbol} (h : s.chars = s'.chars) : s = s' := by
  have heq := ofChars?_chars s
  rw [h, ofChars?_chars] at heq
  exact (Option.some.inj heq).symm

theorem length_chars (s : Symbol) : 1 ≤ s.chars.length ∧ s.chars.length ≤ 3 := by
  cases s <;> decide

/-- A symbol at the front of a text that is not the one of `n` characters has another length. -/
theorem length_ne_of_ofChars?_take {n : Nat} (h : ofChars? (t.take n) = none)
    (hs : s.chars <+: t) : s.chars.length ≠ n := by
  rintro rfl
  rw [← List.prefix_iff_eq_take.1 hs, ofChars?_chars] at h
  simp at h

/-- No symbol at the front of a text is longer than the one that is found there. -/
theorem le_length_of_longest? (h : longest? t = some s) :
    s.chars <+: t ∧ ∀ longer : Symbol, longer.chars <+: t →
      longer.chars.length ≤ s.chars.length := by
  unfold longest? at h
  rw [Option.or_eq_some_iff, Option.or_eq_some_iff] at h
  have fits {n : Nat} (hn : ofChars? (t.take n) = some s)
      (hmore : ∀ longer : Symbol, longer.chars <+: t → longer.chars.length ≤ n) :
      s.chars <+: t ∧ ∀ longer : Symbol, longer.chars <+: t →
        longer.chars.length ≤ s.chars.length := by
    have hs := ofChars?_eq_some hn
    rw [hs]
    refine ⟨List.take_prefix n t, fun longer hlonger => ?_⟩
    rw [List.length_take]
    exact Nat.le_min.2 ⟨hmore longer hlonger, hlonger.length_le⟩
  -- longer symbols are tried first, so none of them fits when a shorter one is found
  rcases h with h | ⟨hthree, h | ⟨htwo, h⟩⟩
  · exact fits h fun longer _ => longer.length_chars.2
  · refine fits h fun longer hlonger => ?_
    have hle := longer.length_chars.2
    have hne := length_ne_of_ofChars?_take hthree hlonger
    omega
  · refine fits h fun longer hlonger => ?_
    have hle := longer.length_chars.2
    have hne := length_ne_of_ofChars?_take hthree hlonger
    have hne' := length_ne_of_ofChars?_take htwo hlonger
    omega

/-- Where a symbol fits, one is found. -/
theorem longest?_ne_none (h : s.chars <+: t) : longest? t ≠ none := by
  intro hnone
  unfold longest? at hnone
  rw [Option.or_eq_none_iff, Option.or_eq_none_iff] at hnone
  obtain ⟨hthree, htwo, hone⟩ := hnone
  have hlength := s.length_chars
  have hne := length_ne_of_ofChars?_take hthree h
  have hne' := length_ne_of_ofChars?_take htwo h
  have hne'' := length_ne_of_ofChars?_take hone h
  omega

/-- **The longest symbol at the front of a text.** -/
theorem longest?_eq_some_iff :
    longest? t = some s ↔ s.chars <+: t ∧ ∀ longer : Symbol, longer.chars <+: t →
      longer.chars.length ≤ s.chars.length := by
  constructor
  · exact le_length_of_longest?
  · rintro ⟨hs, hmax⟩
    obtain ⟨found, hfound⟩ := Option.ne_none_iff_exists'.1 (longest?_ne_none hs)
    obtain ⟨hfits, hlongest⟩ := le_length_of_longest? hfound
    have hlength := Nat.le_antisymm (hmax found hfits) (hlongest s hs)
    have hchars : found.chars = s.chars := by
      rw [List.prefix_iff_eq_take.1 hfits, List.prefix_iff_eq_take.1 hs, hlength]
    rw [hfound, chars_injective hchars]

/-- The longest symbol of a text is the one of every part of it in which it fits. -/
theorem longest?_of_prefix {u : Text} (h : longest? t = some s) (hu : u <+: t)
    (hs : s.chars <+: u) : longest? u = some s := by
  obtain ⟨-, hmax⟩ := longest?_eq_some_iff.1 h
  exact longest?_eq_some_iff.2 ⟨hs, fun longer hlonger => hmax longer (hlonger.trans hu)⟩

/-! ### Symbols that go on from others -/

/-- The symbols whose spelling goes on from that of `s`. -/
def extensions (s : Symbol) : List Symbol :=
  all.filter fun longer => s.chars.isPrefixOf longer.chars && s.chars.length < longer.chars.length

/-- **A symbol that fits is the longest one** if none of those that go on from it fits. -/
theorem longest?_of_extensions (hs : s.chars <+: t)
    (h : ∀ longer ∈ s.extensions, ¬ longer.chars <+: t) : longest? t = some s := by
  refine longest?_eq_some_iff.2 ⟨hs, fun longer hlonger => Nat.le_of_not_lt fun hlt => ?_⟩
  have hprefix : s.chars <+: longer.chars :=
    List.prefix_of_prefix_length_le hs hlonger (Nat.le_of_lt hlt)
  exact h longer (by simp [extensions, List.isPrefixOf_iff_prefix, hprefix, hlt]) hlonger

end Symbol

end GoTree
