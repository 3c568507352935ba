import Mathlib.Tactic.Common
import GoTree.Proofs.Token.Stream
import GoTree.Unicode.Blank

/-!
# Blank tokens

Whether a stretch of text without comments holds a token that the grammar reads can be told from its
characters.  Blanks and line breaks have blank characters only, and every other token that is well
formed starts with a character that is not blank.

## Main definitions

* `Lexeme.ToldByBlanks`: blanks and line breaks are told from other lexemes by their characters

## Main results

* `Lexeme.toldByBlanks_measure`: the lexeme at the front of a text
* `Token.all_isBlank_text`: the tokens of a text after its byte order mark
* `Token.all_isBlank_flatMap`: several such tokens
-/

namespace GoTree

/-! ### Blank characters -/

namespace Unicode

variable {c : Char}

/-- No range of one table meets a range of the other. -/
theorem Ranges.not_contains_of_apart {ranges others : Ranges}
    (h : ∀ range ∈ ranges, ∀ other ∈ others, range.2 < other.1 ∨ other.2 < range.1)
    (hc : ranges.contains c = true) : others.contains c = false := by
  rw [← Bool.not_eq_true, Ranges.contains_iff]
  obtain ⟨range, hrange, hle, hle'⟩ := Ranges.contains_iff.1 hc
  rintro ⟨other, hother, hother', hother''⟩
  have happart := h range hrange other hother
  omega

/-- Among the characters of one byte only a few before the exclamation mark are blank. -/
theorem toNat_lt_of_isBlank (h : isBlank c = true) (hc : c.toNat < 0x80) : c.toNat < 0x21 := by
  obtain ⟨range, hrange, hle, hle'⟩ := Ranges.contains_iff.1 h
  have hlow : ∀ range ∈ whiteSpace, range.1 < 0x80 → range.2 < 0x21 := by decide
  exact hle'.trans_lt (hlow range hrange (hle.trans_lt hc))

theorem not_isBlank_of_isDigit (h : c.isDigit = true) : isBlank c = false := by
  have hdigit : 0x30 ≤ c.toNat ∧ c.toNat ≤ 0x39 := Char.isDigit_iff_toNat.1 h
  rw [← Bool.not_eq_true]
  intro hblank
  have hlow := toNat_lt_of_isBlank hblank (by omega)
  omega

/-- **A letter is not blank.** -/
theorem not_isBlank_of_isAlphabetic (h : isAlphabetic c = true) : isBlank c = false := by
  unfold isAlphabetic at h
  split at h
  · rename_i hascii
    have hcontrols : ∀ n < 0x21, (Char.ofNat n).isAlpha = false := by decide
    rw [← Bool.not_eq_true]
    intro hblank
    have hlow := toNat_lt_of_isBlank hblank hascii
    rw [← Char.ofNat_toNat c, hcontrols _ hlow] at h
    cases h
  · have hapart : ∀ range ∈ alphabetic, ∀ other ∈ whiteSpace,
        range.2 < other.1 ∨ other.2 < range.1 := by decide +kernel
    exact Ranges.not_contains_of_apart hapart h

end Unicode

open Unicode (isBlank)

namespace Token

/-! ### Lexemes -/

namespace Lexeme

variable {c : Char} {t : Text}

theorem not_isBlank_of_isNameStart (h : isNameStart c = true) : isBlank c = false := by
  rcases Bool.or_eq_true_iff.1 h with hmark | halphabetic
  · rw [beq_iff_eq.1 hmark]
    decide
  · exact Unicode.not_isBlank_of_isAlphabetic halphabetic

/-- A symbol starts with a character that is not blank. -/
theorem not_isBlank_of_longest? {s : Symbol} (h : Symbol.longest? (c :: t) = some s) :
    isBlank c = false := by
  obtain ⟨n, hn⟩ := exists_take_of_longest? h
  have hhead : s.chars.head? = some c := by
    rw [hn, List.take_succ_cons]
    rfl
  have hall : (s.chars.head?.all fun d => !isBlank d) = true := by
    cases s <;> rfl
  simpa [hhead] using hall

/-- **Whether a measured lexeme is blank** can be told from its characters, comments and malformed
lexemes aside. -/
def ToldByBlanks (c : Char) (t : Text) (measured : Kind × Nat) : Prop :=
  measured.1.isComment = false → measured.1 ≠ .unknown →
    (c :: t.take measured.2).all isBlank = measured.1.isTrivia

namespace ToldByBlanks

theorem ite {P : Prop} [Decidable P] {a b : Kind × Nat} (h : P → ToldByBlanks c t a)
    (h' : ¬ P → ToldByBlanks c t b) : ToldByBlanks c t (if P then a else b) := by
  split
  · rename_i hP
    exact h hP
  · rename_i hP
    exact h' hP

/-- What starts with a character that is not blank is no blank. -/
theorem of_head {measured : Kind × Nat} (hc : isBlank c = false)
    (hkind : measured.1.isComment = false → measured.1.isTrivia = false) :
    ToldByBlanks c t measured := by
  intro hcomment _
  rw [List.all_cons, hc, hkind hcomment, Bool.false_and]

end ToldByBlanks

theorem isBlank_of_isSpace (h : isSpace c = true) : isBlank c = true := by
  simp only [isSpace, Bool.or_eq_true, beq_iff_eq] at h
  rcases h with (rfl | rfl) | rfl <;> decide

theorem toldByBlanks_measureQuoted (quote : Char) (hquote : isBlank quote = false) (l : Literal)
    (t : Text) : ToldByBlanks quote t (measureQuoted quote l t) := by
  refine .of_head hquote fun _ => ?_
  unfold measureQuoted
  dsimp only
  split <;> rfl

theorem toldByBlanks_measureRaw (t : Text) : ToldByBlanks '\x60' t (measureRaw t) := by
  refine .of_head (by decide) fun _ => ?_
  unfold measureRaw
  dsimp only
  split <;> rfl

theorem toldByBlanks_measureWord (h : isNameStart c = true) (t : Text) :
    ToldByBlanks c t (measureWord c t) := by
  refine .of_head (not_isBlank_of_isNameStart h) fun _ => ?_
  unfold measureWord
  dsimp only
  split <;> rfl

theorem toldByBlanks_measureSymbol (c : Char) (t : Text) :
    ToldByBlanks c t (measureSymbol c t) := by
  unfold measureSymbol
  split
  · rename_i s hs
    exact .of_head (not_isBlank_of_longest? hs) fun _ => rfl
  · exact fun _ hknown => absurd rfl hknown

/-- **The lexeme at the front of a text** has nothing but blank characters just if it is a blank or
a line break. -/
theorem toldByBlanks_measure (c : Char) (t : Text) : ToldByBlanks c t (measure false c t) := by
  -- the tests come in the order in which the measure makes them
  refine .ite (fun hmark => absurd hmark.1 (by simp)) fun _ => .ite ?_ fun _ => .ite ?_ fun _ =>
    .ite ?_ fun _ => .ite ?_ fun _ => .ite ?_ fun _ => .ite ?_ fun _ => .ite ?_ fun _ =>
    .ite ?_ fun _ => .ite ?_ fun _ => toldByBlanks_measureSymbol c t
  · rintro rfl _ _
    simp [Unicode.isBlank_newline, Kind.isTrivia]
  · intro hspace _ _
    show (c :: t.take (run isSpace t)).all isBlank = true
    rw [List.all_eq_true, List.forall_mem_cons]
    exact ⟨isBlank_of_isSpace hspace, fun d hd => isBlank_of_isSpace (of_mem_take_run hd)⟩
  · intro _ hcomment
    cases hcomment
  · intro _ hcomment hknown
    rcases measureComment_kind (t.drop 1) with hkind | hkind
    · replace hcomment : (measureComment (t.drop 1)).1.isComment = false := hcomment
      rw [hkind] at hcomment
      cases hcomment
    · exact absurd hkind hknown
  · intro hnumber
    refine .of_head ?_ fun _ => rfl
    rcases hnumber with hdigit | ⟨rfl, -⟩
    · exact Unicode.not_isBlank_of_isDigit hdigit
    · decide
  · rintro rfl
    exact toldByBlanks_measureQuoted _ (by decide) _ t
  · rintro rfl
    exact toldByBlanks_measureQuoted _ (by decide) _ t
  · rintro rfl
    exact toldByBlanks_measureRaw t
  · exact fun hname => toldByBlanks_measureWord hname t

/-- Every lexeme behind the front of a text was measured. -/
theorem exists_measured_of_mem_cutRest {lexeme : Lexeme} (h : lexeme ∈ cutRest t) :
    ∃ c tail, lexeme = ⟨(measure false c tail).1, c :: tail.take (measure false c tail).2⟩ := by
  -- what follows the first lexeme is shorter
  induction hn : t.length using Nat.strong_induction_on generalizing t with
  | _ n ih =>
    cases t with
    | nil => simp [cutRest] at h
    | cons c t =>
      rw [cutRest_cons, List.mem_cons] at h
      rcases h with rfl | h
      · exact ⟨c, t, rfl⟩
      · have hlt : (t.drop (measure false c t).2).length < n := by
          rw [List.length_cons] at hn
          rw [List.length_drop]
          omega
        exact ih _ hlt h rfl

end Lexeme

/-! ### Tokens -/

variable {t : Text}

/-- **A token of a text is blank** just if it has nothing but blank characters, comments and
malformed tokens aside. -/
theorem all_isBlank_text {token : Token} (h : token ∈ body t)
    (hcomment : token.kind.isComment = false) (hknown : token.kind ≠ .unknown) :
    token.text.all isBlank = token.kind.isTrivia := by
  obtain ⟨c, tail, hmeasured⟩ :=
    Lexeme.exists_measured_of_mem_cutRest (exists_lexeme_of_mem_place h)
  obtain ⟨hkind, htext⟩ := Lexeme.mk.inj hmeasured
  rw [hkind] at hcomment hknown ⊢
  rw [htext]
  exact Lexeme.toldByBlanks_measure c tail hcomment hknown

/-- **A stretch without comments** has nothing but blank characters just if the grammar reads none
of its tokens. -/
theorem all_isBlank_flatMap {tokens : List Token} (h : ∀ token ∈ tokens, token ∈ body t)
    (hcomment : ∀ token ∈ tokens, token.kind.isComment = false)
    (hknown : ∀ token ∈ tokens, token.kind ≠ .unknown) :
    (tokens.flatMap text).all isBlank = tokens.all fun token => token.kind.isTrivia := by
  rw [List.all_flatMap, Bool.eq_iff_iff, List.all_eq_true, List.all_eq_true]
  refine forall₂_congr fun token htoken => ?_
  rw [all_isBlank_text (h token htoken) (hcomment token htoken) (hknown token htoken)]

end Token

end GoTree
