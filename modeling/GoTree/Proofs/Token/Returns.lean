import GoTree.Proofs.Text.Returns
import GoTree.Proofs.Token.Stream

/-!
# Tokens of a text with carriage returns

Carriage returns before the line feeds of a text change its tokens only at the end of a line: a
blank, a line comment or an unclosed literal takes the carriage return in, and where none of these
ends the line the carriage return is a blank of its own.  All other tokens stay, those over several
lines with carriage returns inside.

## Main definitions

* `Lexeme.Widened`: how the measure of a lexeme changes
* `Token.Widened`: how a token changes
* `Token.Follows`: the tokens from a place in the text on

## Main results

* `Lexeme.widened_measure`: the lexeme at the front of a text
* `Token.forall₂_body`: the tokens of a text other than blanks
-/

namespace GoTree.Token

open GoTree.Text

namespace Lexeme

/-! ### Within a line -/

/-- Texts that do not go on within the line. -/
def Breaks (v : Text) : Prop :=
  ∀ c ∈ v.head?, c = '\n' ∨ c = '\r'

/-- A class of characters that stay within a line. -/
def Stays (p : Char → Bool) : Prop :=
  p '\n' = false ∧ p '\r' = false

theorem Breaks.not_of_stays {c : Char} {v : Text} {p : Char → Bool} (hv : Breaks (c :: v))
    (hp : Stays p) : p c = false := by
  rcases hv c rfl with rfl | rfl
  · exact hp.1
  · exact hp.2

/-- A text is a line and a rest that breaks, with and without carriage returns. -/
theorem exists_line (t : Text) :
    ∃ u v, t = u ++ v ∧ '\n' ∉ u ∧ Breaks v ∧ withReturns t = u ++ withReturns v ∧
      Breaks (withReturns v) := by
  induction t with
  | nil => exact ⟨[], [], rfl, by simp, by simp [Breaks], rfl, by simp [Breaks]⟩
  | cons c t ih =>
    by_cases hc : c = '\n'
    · subst hc
      exact ⟨[], '\n' :: t, rfl, by simp, by simp [Breaks], rfl, by simp [Breaks]⟩
    · obtain ⟨u, v, rfl, hu, hv, hreturns, hv'⟩ := ih
      refine ⟨c :: u, v, rfl, ?_, hv, ?_, hv'⟩
      · rw [List.mem_cons, not_or]
        exact ⟨Ne.symm hc, hu⟩
      · rw [withReturns_cons hc, hreturns]
        rfl

theorem run_append {p : Char → Bool} (hp : Stays p) {v : Text} (hv : Breaks v) (u : Text) :
    run p (u ++ v) = run p u := by
  induction u with
  | nil =>
    cases v with
    | nil => rfl
    | cons c v => rw [List.nil_append, run_cons, hv.not_of_stays hp]; rfl
  | cons c u ih => rw [List.cons_append, run_cons, run_cons, ih]

theorem single_append {p : Char → Bool} (hp : Stays p) {v : Text} (hv : Breaks v) (u : Text) :
    single p (u ++ v) = single p u := by
  unfold single
  cases u with
  | cons c u => simp
  | nil =>
    cases v with
    | nil => rfl
    | cons c v => simp [hv.not_of_stays hp, run]

theorem single_le (p : Char → Bool) (t : Text) : single p t ≤ t.length := by
  have hle := run_le p (t.take 1)
  rw [List.length_take] at hle
  exact hle.trans (Nat.min_le_right _ _)

/-- **A measure within a line:** what breaks the line is not looked at and not taken in. -/
def Inline (n : Text → Nat) : Prop :=
  ∀ u v, Breaks v → n (u ++ v) = n u ∧ n u ≤ u.length

theorem inline_run {p : Char → Bool} (hp : Stays p) : Inline (run p) :=
  fun u _ hv => ⟨run_append hp hv u, run_le p u⟩

theorem inline_single {p : Char → Bool} (hp : Stays p) : Inline (single p) :=
  fun u _ hv => ⟨single_append hp hv u, single_le p u⟩

theorem inline_zero : Inline fun _ => 0 :=
  fun _ _ _ => ⟨rfl, Nat.zero_le _⟩

theorem Inline.ite {n k : Text → Nat} {P : Prop} [Decidable P] (hn : Inline n) (hk : Inline k) :
    Inline fun t => if P then n t else k t := by
  by_cases hP : P
  · simpa only [if_pos hP] using hn
  · simpa only [if_neg hP] using hk

theorem Inline.drop {n : Text → Nat} (hn : Inline n) {v : Text} (hv : Breaks v) (u : Text) :
    (u ++ v).drop (n (u ++ v)) = u.drop (n u) ++ v := by
  rw [(hn u v hv).1, List.drop_append_of_le_length (hn u v hv).2]

/-- One measure after another. -/
theorem Inline.add {n k : Text → Nat} (hn : Inline n) (hk : Inline k) :
    Inline fun t => n t + k (t.drop (n t)) := by
  intro u v hv
  obtain ⟨hsame, hle⟩ := hk (u.drop (n u)) v hv
  refine ⟨?_, ?_⟩
  · show n (u ++ v) + k ((u ++ v).drop (n (u ++ v))) = n u + k (u.drop (n u))
    rw [hn.drop hv, hsame, (hn u v hv).1]
  · have hle' := (hn u v hv).2
    rw [List.length_drop] at hle
    show n u + k (u.drop (n u)) ≤ u.length
    omega

theorem stays_isDigitOrMark (hex : Bool) : Stays (isDigitOrMark hex) := by
  cases hex <;> exact ⟨by decide, by decide⟩

/-- A measure that counts only if another one finds something. -/
theorem Inline.guard {n k : Text → Nat} (hn : Inline n) (hk : Inline k) :
    Inline fun t => if n t = 0 then 0 else k t := by
  intro u v hv
  dsimp only
  rw [(hn u v hv).1]
  split
  · exact ⟨rfl, Nat.zero_le _⟩
  · exact hk u v hv

theorem inline_fraction (hex : Bool) : Inline (fraction hex) := by
  have hpoint : Inline (single (· == '.')) := inline_single ⟨by decide, by decide⟩
  exact hpoint.guard (hpoint.add (inline_run (stays_isDigitOrMark hex)))

theorem inline_exponent (hex : Bool) : Inline (exponent hex) := by
  have hmark : Inline (single (isPower hex)) :=
    inline_single (by cases hex <;> exact ⟨by decide, by decide⟩)
  have hsign : Inline (single fun c => c == '+' || c == '-') :=
    inline_single ⟨by decide, by decide⟩
  have hsigned : Inline (signedMark hex) := hmark.add hsign
  exact hmark.guard (hsigned.add (inline_run (stays_isDigitOrMark false)))

/-- **A number lies within its line.** -/
theorem measureNumber_append (c : Char) {v : Text} (hv : Breaks v) (u : Text) :
    measureNumber c (u ++ v) = measureNumber c u ∧ (measureNumber c u).2 ≤ u.length := by
  have hhex : Inline (single fun d => d == 'x' || d == 'X') := inline_single ⟨by decide, by decide⟩
  have hmark : Inline (baseMark c) := (inline_single ⟨by decide, by decide⟩).ite inline_zero
  have hunit : Inline (single (· == 'i')) := inline_single ⟨by decide, by decide⟩
  have hbase : isHex c (u ++ v) = isHex c u := by rw [isHex, (hhex u v hv).1, isHex]
  generalize hmarked : isHex c u = hex at hbase
  have hwhole : Inline (wholeDigits hex c) := hmark.add (inline_run (stays_isDigitOrMark hex))
  have hpart : Inline (fractionOf hex c) := inline_zero.ite (inline_fraction hex)
  have hmantissa : Inline (mantissa hex c) := hwhole.add hpart
  have hscaled : Inline (scaled hex c) := hmantissa.add (inline_exponent hex)
  have hall := hscaled.add hunit
  rw [measureNumber_eq hbase, measureNumber_eq hmarked]
  refine ⟨?_, (hall u v hv).2⟩
  -- each part starts where the one before it stops, which is the same place in the line
  rw [hscaled.drop hv, hwhole.drop hv, hmantissa.drop hv, (hunit _ v hv).1, (hpart _ v hv).1,
    (inline_exponent hex _ v hv).1, (hscaled u v hv).1]

theorem stays_isNamePart : Stays isNamePart :=
  ⟨by decide +kernel, by decide +kernel⟩

/-- **A word lies within its line.** -/
theorem measureWord_append (c : Char) {v : Text} (hv : Breaks v) (u : Text) :
    measureWord c (u ++ v) = measureWord c u ∧ (measureWord c u).2 ≤ u.length := by
  have hle := run_le isNamePart u
  unfold measureWord
  dsimp only
  rw [run_append stays_isNamePart hv, List.take_append_of_le_length hle]
  refine ⟨rfl, ?_⟩
  split <;> exact hle

/-- No symbol holds what breaks a line. -/
theorem ofChars?_of_mem {x : Text} {c : Char} (hc : c ∈ x) (hbreak : c = '\n' ∨ c = '\r') :
    Symbol.ofChars? x = none := by
  cases hs : Symbol.ofChars? x with
  | none => rfl
  | some s =>
    have hfree : '\n' ∉ s.chars ∧ '\r' ∉ s.chars := by
      cases s <;> exact ⟨by decide, by decide⟩
    rw [Symbol.ofChars?_eq_some hs] at hfree
    rcases hbreak with rfl | rfl
    · exact absurd hc hfree.1
    · exact absurd hc hfree.2

theorem longest?_append (c : Char) {v : Text} (hv : Breaks v) (u : Text) :
    Symbol.longest? (c :: (u ++ v)) = Symbol.longest? (c :: u) := by
  cases v with
  | nil => rw [List.append_nil]
  | cons d v =>
    have hnone {x : Text} (hd : d ∈ x) : Symbol.ofChars? x = none := ofChars?_of_mem hd (hv d rfl)
    -- only the front of three characters can reach beyond a short line
    match u with
    | [] => simp [Symbol.longest?, hnone]
    | [e] => simp [Symbol.longest?, hnone, ← Option.or_assoc]
    | e :: f :: u => simp [Symbol.longest?]

/-- **A symbol lies within its line.** -/
theorem measureSymbol_append (c : Char) {v : Text} (hv : Breaks v) (u : Text) :
    measureSymbol c (u ++ v) = measureSymbol c u ∧ (measureSymbol c u).2 ≤ u.length := by
  unfold measureSymbol
  rw [longest?_append c hv]
  refine ⟨rfl, ?_⟩
  split
  · rename_i s hs
    obtain ⟨n, hn⟩ := exists_take_of_longest? hs
    have hle := List.length_take_le' (n + 1) (c :: u)
    rw [← hn, List.length_cons] at hle
    show s.chars.length - 1 ≤ u.length
    omega
  · exact Nat.zero_le _

/-! ### Measures -/

/-- **How the measure of a lexeme that starts with `c` changes:** not at all within a line; over
lines, by the carriage returns inside; and by the carriage return that ends the line of a blank, a
line comment or an unclosed literal. -/
inductive Widened (c : Char) (t : Text) : Kind × Nat → Kind × Nat → Prop
  | line (kind : Kind) {n : Nat} (hn : n ≤ t.length) (hline : '\n' ∉ t.take n) :
      Widened c t (kind, n) (kind, n)
  | lines {kind : Kind} (n : Nat)
      (hkind : kind = .blockComment ∨ kind = .unknown ∨ kind = .literal .string ∧ c = '\x60') :
      Widened c t (kind, n) (kind, (withReturns (t.take n)).length)
  | ended {kind : Kind} {n : Nat} (hline : '\n' ∉ t.take n) (hnext : (t.drop n).head? = some '\n')
      (hkind : kind = .whitespace ∨ kind = .lineComment ∨ kind = .unknown) :
      Widened c t (kind, n) (kind, n + 1)

/-- A measure that lies within the line is the same with carriage returns. -/
theorem widened_of_append {c : Char} {measure : Text → Kind × Nat}
    (h : ∀ u v, Breaks v → measure (u ++ v) = measure u ∧ (measure u).2 ≤ u.length) (t : Text) :
    Widened c t (measure t) (measure (withReturns t)) := by
  obtain ⟨u, v, rfl, hu, hv, hreturns, hv'⟩ := exists_line t
  obtain ⟨hsame, hle⟩ := h u v hv
  rw [hreturns, (h u _ hv').1, hsame]
  refine .line (n := (measure u).2) _ ?_ ?_
  · rw [List.length_append]
    omega
  · rw [List.take_append_of_le_length hle]
    exact fun hmem => hu (List.mem_of_mem_take hmem)

/-- One more character of the line in front. -/
theorem Widened.cons {c d : Char} {t : Text} {x y : Kind × Nat} (hd : d ≠ '\n')
    (h : Widened c t x y) : Widened c (d :: t) (x.1, x.2 + 1) (y.1, y.2 + 1) := by
  cases h with
  | line kind hn hline =>
    refine .line kind (by simpa using hn) ?_
    rw [List.take_succ_cons, List.mem_cons, not_or]
    exact ⟨Ne.symm hd, hline⟩
  | lines n hkind =>
    have hlength : (withReturns (t.take n)).length + 1 =
        (withReturns ((d :: t).take (n + 1))).length := by
      rw [List.take_succ_cons, withReturns_cons hd, List.length_cons]
    rw [hlength]
    exact .lines (n + 1) hkind
  | ended hline hnext hkind =>
    refine .ended ?_ (by simpa using hnext) hkind
    rw [List.take_succ_cons, List.mem_cons, not_or]
    exact ⟨Ne.symm hd, hline⟩

/-- A run that takes carriage returns in, but no line feeds. -/
theorem widened_run {c : Char} {kind : Kind} {p : Char → Bool} (hfeed : p '\n' = false)
    (hreturn : p '\r' = true) (hkind : kind = .whitespace ∨ kind = .lineComment) (t : Text) :
    Widened c t (kind, run p t) (kind, run p (withReturns t)) := by
  induction t with
  | nil => exact .line kind (Nat.le_refl 0) (by simp)
  | cons d t ih =>
    by_cases hd : d = '\n'
    · subst hd
      have hone : run p (withReturns ('\n' :: t)) = 0 + 1 := by
        rw [withReturns_newline, run_cons, run_cons, hreturn, hfeed]
        rfl
      rw [hone, run_cons, hfeed]
      exact .ended (by simp) rfl (hkind.imp_right .inl)
    · rw [withReturns_cons hd, run_cons, run_cons]
      by_cases hp : p d = true
      · rw [if_pos hp, if_pos hp]
        exact ih.cons hd
      · rw [if_neg hp, if_neg hp]
        exact .line kind (Nat.zero_le _) (by simp)

/-! ### Quoted literals -/

section Quoted

variable {quote : Char} {l : Literal}

/-- **A quoted literal closes in its line or does not close at all.** -/
theorem widened_measureQuoted {c : Char} (hslash : quote ≠ '\\') (hfeed : quote ≠ '\n')
    (hreturn : quote ≠ '\r') (t : Text) :
    Widened c t (measureQuoted quote l t) (measureQuoted quote l (withReturns t)) := by
  -- an escape takes two characters, so the induction is on the length
  induction hlength : t.length using Nat.strong_induction_on generalizing t with
  | _ k ih =>
    have hend (t : Text) : measureQuoted quote l ('\r' :: '\n' :: t) = (.unknown, 0 + 1) := by
      rw [measureQuoted_cons hreturn.symm (by decide) (by decide), measureQuoted_newline hfeed]
    match t with
    | [] => exact .line _ (Nat.zero_le _) (by simp)
    | d :: t =>
      rw [List.length_cons] at hlength
      by_cases hd : d = '\n'
      · subst hd
        rw [withReturns_newline, hend, measureQuoted_newline hfeed]
        exact .ended (by simp) rfl (.inr (.inr rfl))
      · rw [withReturns_cons hd]
        by_cases hquote : d = quote
        · subst hquote
          rw [measureQuoted_quote, measureQuoted_quote]
          exact .line _ (by simp) (by simpa using Ne.symm hd)
        · by_cases hescape : d = '\\'
          · subst hescape
            match t with
            | [] =>
              rw [withReturns_nil, measureQuoted_singleton hquote hd]
              exact .line .unknown (by simp) (by simp)
            | e :: t =>
              rw [List.length_cons] at hlength
              by_cases he : e = '\n'
              · subst he
                rw [withReturns_newline, measureQuoted_escape_newline hslash,
                  measureQuoted_escape hslash (by decide), measureQuoted_newline hfeed]
                exact .ended (by simp) rfl (.inr (.inr rfl))
              · rw [withReturns_cons he, measureQuoted_escape hslash he,
                  measureQuoted_escape hslash he]
                exact ((ih t.length (by omega) t rfl).cons he).cons hd
          · rw [measureQuoted_cons hquote hd hescape, measureQuoted_cons hquote hd hescape]
            exact (ih t.length (by omega) t rfl).cons hd

end Quoted

/-! ### Lexemes over several lines -/

/-- **A raw string reaches over lines.** -/
theorem measureRaw_withReturns (t : Text) :
    measureRaw (withReturns t) =
      ((measureRaw t).1, (withReturns (t.take (measureRaw t).2)).length) := by
  induction t with
  | nil => rfl
  | cons c t ih =>
    by_cases hc : c = '\n'
    · subst hc
      rw [withReturns_newline, measureRaw_cons, measureRaw_cons, measureRaw_cons, ih]
      simp
    · rw [withReturns_cons hc, measureRaw_cons, measureRaw_cons, ih]
      split
      · simp [withReturns_cons hc]
      · simp [withReturns_cons hc]

/-- **A block comment reaches over lines.** -/
theorem measureComment_withReturns (t : Text) :
    measureComment (withReturns t) =
      ((measureComment t).1, (withReturns (t.take (measureComment t).2)).length) := by
  induction t with
  | nil => rfl
  | cons c t ih =>
    by_cases hc : c = '\n'
    · subst hc
      rw [withReturns_newline, measureComment_cons, measureComment_cons, measureComment_cons, ih]
      simp
    · have hhead := head?_withReturns (t := t) (c := '/') (by decide) (by decide)
      rw [withReturns_cons hc, measureComment_cons, measureComment_cons, ih]
      simp only [hhead]
      split
      · rename_i hclose
        obtain ⟨rest, rfl⟩ := List.head?_eq_some_iff.1 hclose.2
        simp [withReturns_cons hc, withReturns_cons (show '/' ≠ '\n' by decide)]
      · simp [withReturns_cons hc]

/-! ### All lexemes -/

theorem any_head?_withReturns {p : Char → Bool} (hp : Stays p) (t : Text) :
    (withReturns t).head?.any p = t.head?.any p := by
  cases t with
  | nil => rfl
  | cons c t =>
    by_cases hc : c = '\n'
    · subst hc
      simp [hp.1, hp.2]
    · simp [withReturns_cons hc]

/-- A test that comes out the same with carriage returns. -/
theorem Widened.ite {c : Char} {t : Text} {P Q : Prop} [Decidable P] [Decidable Q] (h : Q ↔ P)
    {x y x' y' : Kind × Nat} (hx : P → Widened c t x x') (hy : ¬ P → Widened c t y y') :
    Widened c t (if P then x else y) (if Q then x' else y') := by
  by_cases hP : P
  · rw [if_pos hP, if_pos (h.2 hP)]
    exact hx hP
  · rw [if_neg hP, if_neg (mt h.1 hP)]
    exact hy hP

/-- A block comment, or all that is left of the text. -/
theorem widened_block {c : Char} {t : Text} (hhead : t.head? = some '*') :
    Widened c t ((measureComment (t.drop 1)).1, (measureComment (t.drop 1)).2 + 1)
      ((measureComment ((withReturns t).drop 1)).1,
        (measureComment ((withReturns t).drop 1)).2 + 1) := by
  obtain ⟨rest, rfl⟩ := List.head?_eq_some_iff.1 hhead
  have hstar : withReturns ('*' :: rest) = '*' :: withReturns rest :=
    withReturns_cons (by decide) rest
  rw [hstar, List.drop_one, List.tail_cons, List.drop_one, List.tail_cons,
    measureComment_withReturns]
  have hlines : Widened c rest (measureComment rest)
      ((measureComment rest).1, (withReturns (rest.take (measureComment rest).2)).length) :=
    .lines _ ((measureComment_kind rest).imp_right .inl)
  exact hlines.cons (by decide)

/-- **The lexeme at the front of a text** that does not start with a line feed. -/
theorem widened_measure {c : Char} (hc : c ≠ '\n') (t : Text) :
    Widened c t (measure false c t) (measure false c (withReturns t)) := by
  have hhead (d : Char) (hreturn : d ≠ '\r') (hfeed : d ≠ '\n') :=
    and_congr_right_iff.2 fun (_ : c = '/') => head?_withReturns (t := t) hreturn hfeed
  have hdigit : (c.isDigit = true ∨ c = '.' ∧ (withReturns t).head?.any Char.isDigit = true) ↔
      (c.isDigit = true ∨ c = '.' ∧ t.head?.any Char.isDigit = true) := by
    rw [any_head?_withReturns ⟨by decide, by decide⟩]
  rw [measure, measure]
  -- the tests come in the order in which the measure makes them
  refine .ite Iff.rfl (by simp) fun _ => .ite Iff.rfl (fun h => absurd h hc) fun _ => ?_
  refine .ite Iff.rfl (fun _ => widened_run (by decide) (by decide) (.inl rfl) t) fun _ => ?_
  refine .ite (hhead '/' (by decide) (by decide))
    (fun _ => widened_run (by decide) (by decide) (.inr rfl) t) fun _ => ?_
  refine .ite (hhead '*' (by decide) (by decide)) (fun h => widened_block h.2) fun _ => ?_
  refine .ite hdigit (fun _ => widened_of_append (fun u v hv => measureNumber_append c hv u) t)
    fun _ => ?_
  refine .ite Iff.rfl
    (fun _ => widened_measureQuoted (by decide) (by decide) (by decide) t) fun _ => ?_
  refine .ite Iff.rfl
    (fun _ => widened_measureQuoted (by decide) (by decide) (by decide) t) fun _ => ?_
  refine .ite Iff.rfl (fun hraw => ?_) fun _ => .ite Iff.rfl
    (fun _ => widened_of_append (fun u v hv => measureWord_append c hv u) t)
    fun _ => widened_of_append (fun u v hv => measureSymbol_append c hv u) t
  have hkind : (measureRaw t).1 = .literal .string ∨ (measureRaw t).1 = .unknown := by
    unfold measureRaw
    dsimp only
    split
    · exact .inl rfl
    · exact .inr rfl
  rw [measureRaw_withReturns]
  exact .lines (measureRaw t).2 (.inr (hkind.symm.imp_right fun h => ⟨h, hraw⟩))

end Lexeme

/-! ### Tokens -/

/-- **How a token of `t` changes.**  Its offset moves with the text, and a line feed stands behind
its new carriage return. -/
inductive Widened (t : Text) : Token → Token → Prop
  | newline (start : Nat) :
      Widened t ⟨.newline, start, ['\n']⟩ ⟨.newline, t.shift start + 1, ['\n']⟩
  | line (kind : Kind) (start : Nat) {x : Text} (hline : '\n' ∉ x) :
      Widened t ⟨kind, start, x⟩ ⟨kind, t.shift start, x⟩
  | lines {kind : Kind} (start : Nat) {x : Text} (hhead : x.head? ≠ some '\n')
      (hkind : kind = .blockComment ∨ kind = .unknown ∨
        kind = .literal .string ∧ x.head? = some '\x60') :
      Widened t ⟨kind, start, x⟩ ⟨kind, t.shift start, withReturns x⟩
  | ended {kind : Kind} (start : Nat) {x : Text} (hline : '\n' ∉ x)
      (hkind : kind = .lineComment ∨ kind = .unknown) :
      Widened t ⟨kind, start, x⟩ ⟨kind, t.shift start, x ++ ['\r']⟩

/-- The tokens other than blanks within a line. -/
def visible (tokens : List Token) : List Token :=
  tokens.filter fun token => token.kind != .whitespace

theorem visible_cons (token : Token) (tokens : List Token) :
    visible (token :: tokens) =
      if token.kind = .whitespace then visible tokens else token :: visible tokens := by
  unfold visible
  rw [List.filter_cons]
  by_cases h : token.kind = .whitespace
  · simp [h]
  · simp [h]

/-- A token in front, unless it is a blank. -/
theorem forall₂_cons_unless {t : Text} {kind : Kind} {start start' : Nat} {x x' : Text}
    {tokens tokens' : List Token}
    (h : kind ≠ .whitespace → Widened t ⟨kind, start, x⟩ ⟨kind, start', x'⟩)
    (hrest : List.Forall₂ (Widened t) tokens tokens') :
    List.Forall₂ (Widened t)
      (if kind = .whitespace then tokens else ⟨kind, start, x⟩ :: tokens)
      (if kind = .whitespace then tokens' else ⟨kind, start', x'⟩ :: tokens') := by
  split
  · exact hrest
  · rename_i hkind
    exact .cons (h hkind) hrest

theorem cutRest_newline (t : Text) :
    Lexeme.cutRest ('\n' :: t) = ⟨.newline, ['\n']⟩ :: Lexeme.cutRest t :=
  Lexeme.cutRest_cons '\n' t

theorem cutRest_return (t : Text) :
    Lexeme.cutRest ('\r' :: '\n' :: t) =
      ⟨.whitespace, ['\r']⟩ :: ⟨.newline, ['\n']⟩ :: Lexeme.cutRest t := by
  rw [Lexeme.cutRest_cons, ← cutRest_newline]
  rfl

/-- The front of a line, cut off with and without carriage returns. -/
theorem cut_line {t : Text} {n : Nat} (hn : n ≤ t.length) (hline : '\n' ∉ t.take n) :
    (withReturns t).take n = t.take n ∧ (withReturns t).drop n = withReturns (t.drop n) := by
  have hsplit : withReturns t = t.take n ++ withReturns (t.drop n) := by
    nth_rewrite 1 [← List.take_append_drop n t]
    rw [withReturns_append, withReturns_of_not_mem hline]
  have hlength : (t.take n).length = n := by rw [List.length_take, Nat.min_eq_left hn]
  rw [hsplit]
  exact ⟨List.take_left' hlength, List.drop_left' hlength⟩

/-- **The tokens of `rest` correspond**, where `a` stands before it. -/
def Follows (t a rest : Text) : Prop :=
  List.Forall₂ (Widened t) (visible (place a.size (Lexeme.cutRest rest)))
    (visible (place (withReturns a).size (Lexeme.cutRest (withReturns rest))))

section Follows

variable {t a q r x : Text} {kind : Kind} {n : Nat}

/-- A line feed whose carriage return is behind us, as a blank or in the lexeme before it. -/
theorem Follows.feed (h : t = a ++ '\n' :: q) (hrest : Follows t (a ++ ['\n']) q) :
    List.Forall₂ (Widened t) (visible (place a.size (Lexeme.cutRest ('\n' :: q))))
      (visible (place ((withReturns a).size + 1) (Lexeme.cutRest ('\n' :: withReturns q)))) := by
  have hstart : (withReturns a).size = t.shift a.size := by rw [h, shift_size_append]
  have hsize : (withReturns (a ++ ['\n'])).size = t.shift a.size + 1 + Text.size ['\n'] := by
    rw [withReturns_append, size_append, hstart, Nat.add_assoc]
    rfl
  rw [Follows, hsize, size_append] at hrest
  rw [cutRest_newline, cutRest_newline, place_cons, place_cons, visible_cons, visible_cons,
    if_neg (by simp), if_neg (by simp), hstart]
  exact .cons (.newline a.size) hrest

/-- A line feed at the front: its carriage return is a blank. -/
theorem Follows.newline (h : t = a ++ '\n' :: q) (hrest : Follows t (a ++ ['\n']) q) :
    Follows t a ('\n' :: q) := by
  rw [Follows, withReturns_newline, cutRest_return, place_cons, visible_cons, if_pos rfl,
    ← cutRest_newline]
  exact hrest.feed h

/-- A lexeme `x` at the front that becomes `x'`, with what stands behind it. -/
theorem forall₂_place_cons {x' : Text} {rest rest' : List Lexeme} (h : t = a ++ x ++ q)
    (hx : kind ≠ .whitespace → Widened t ⟨kind, a.size, x⟩ ⟨kind, t.shift a.size, x'⟩)
    (hrest : List.Forall₂ (Widened t) (visible (place (a ++ x).size rest))
      (visible (place ((withReturns a).size + x'.size) rest'))) :
    List.Forall₂ (Widened t) (visible (place a.size (⟨kind, x⟩ :: rest)))
      (visible (place (withReturns a).size (⟨kind, x'⟩ :: rest'))) := by
  have hstart : (withReturns a).size = t.shift a.size := by
    rw [h, List.append_assoc, shift_size_append]
  rw [size_append] at hrest
  rw [place_cons, place_cons, visible_cons, visible_cons, hstart]
  rw [hstart] at hrest
  exact forall₂_cons_unless hx hrest

/-- A lexeme within its line. -/
theorem Follows.line (h : t = a ++ x ++ q) (hline : '\n' ∉ x) (hrest : Follows t (a ++ x) q) :
    List.Forall₂ (Widened t) (visible (place a.size (⟨kind, x⟩ :: Lexeme.cutRest q)))
      (visible (place (withReturns a).size (⟨kind, x⟩ :: Lexeme.cutRest (withReturns q)))) := by
  refine forall₂_place_cons h (fun _ => .line kind a.size hline) ?_
  rwa [Follows, withReturns_append, size_append (withReturns a), withReturns_of_not_mem hline]
    at hrest

/-- A lexeme that may reach over lines. -/
theorem Follows.lines (h : t = a ++ x ++ q) (hhead : x.head? ≠ some '\n')
    (hkind : kind = .blockComment ∨ kind = .unknown ∨
      kind = .literal .string ∧ x.head? = some '\x60') (hrest : Follows t (a ++ x) q) :
    List.Forall₂ (Widened t) (visible (place a.size (⟨kind, x⟩ :: Lexeme.cutRest q)))
      (visible (place (withReturns a).size
        (⟨kind, withReturns x⟩ :: Lexeme.cutRest (withReturns q)))) := by
  refine forall₂_place_cons h (fun _ => .lines a.size hhead hkind) ?_
  rwa [Follows, withReturns_append, size_append (withReturns a)] at hrest

/-- A lexeme that takes in the carriage return at the end of its line. -/
theorem Follows.ended (h : t = a ++ x ++ '\n' :: q) (hline : '\n' ∉ x)
    (hkind : kind = .whitespace ∨ kind = .lineComment ∨ kind = .unknown)
    (hrest : Follows t (a ++ x ++ ['\n']) q) :
    List.Forall₂ (Widened t) (visible (place a.size (⟨kind, x⟩ :: Lexeme.cutRest ('\n' :: q))))
      (visible (place (withReturns a).size
        (⟨kind, x ++ ['\r']⟩ :: Lexeme.cutRest ('\n' :: withReturns q)))) := by
  refine forall₂_place_cons h
    (fun hblank => .ended a.size hline (hkind.resolve_left hblank)) ?_
  have hfeed := hrest.feed h
  have hsize : (x ++ ['\r']).size = x.size + 1 := size_append x ['\r']
  rwa [withReturns_append, size_append (withReturns a), withReturns_of_not_mem hline,
    Nat.add_assoc, ← hsize] at hfeed

/-- Where the carriage return is taken in, it is the character behind the lexeme. -/
theorem cut_ended (hline : '\n' ∉ r.take n) (hnext : (r.drop n).head? = some '\n') :
    ∃ q, r.drop n = '\n' :: q ∧ (withReturns r).take (n + 1) = r.take n ++ ['\r'] ∧
      (withReturns r).drop (n + 1) = '\n' :: withReturns q := by
  obtain ⟨q, hq⟩ := List.head?_eq_some_iff.1 hnext
  have hn : n ≤ r.length := by
    by_contra hlt
    rw [List.drop_eq_nil_of_le (by omega)] at hq
    simp at hq
  obtain ⟨htake, hdrop⟩ := cut_line hn hline
  have hreturn : (withReturns r)[n]? = some '\r' := by
    rw [← List.head?_drop, hdrop, hq]
    rfl
  refine ⟨q, hq, ?_, ?_⟩
  · rw [List.take_add_one, htake, hreturn]
    rfl
  · rw [← List.drop_drop, hdrop, hq]
    rfl

/-- **One lexeme and what stands behind it.** -/
theorem Follows.cons {c : Char} (hc : c ≠ '\n') (h : t = a ++ c :: r)
    (hrest : ∀ b q, t = b ++ q → q.length ≤ r.length → Follows t b q) :
    Follows t a (c :: r) := by
  have hcut (n : Nat) : t = a ++ (c :: r.take n) ++ r.drop n := by simp [h]
  have hshorter (n : Nat) : (r.drop n).length ≤ r.length := by
    rw [List.length_drop]
    omega
  have hmeasure := Lexeme.widened_measure hc r
  rw [Follows, withReturns_cons hc, Lexeme.cutRest_cons, Lexeme.cutRest_cons]
  generalize Lexeme.measure false c r = x at hmeasure
  generalize Lexeme.measure false c (withReturns r) = y at hmeasure
  -- a lexeme stops within its line, goes over line breaks, or is ended by one
  cases hmeasure with
  | @line kind n hn hline =>
    obtain ⟨htake, hdrop⟩ := cut_line hn hline
    have hline' : '\n' ∉ c :: r.take n := by simp [Ne.symm hc, hline]
    dsimp only
    rw [htake, hdrop]
    exact (hrest _ _ (hcut n) (hshorter n)).line (hcut n) hline'
  | @lines kind n hkind =>
    have hsplit : withReturns r = withReturns (r.take n) ++ withReturns (r.drop n) := by
      rw [← withReturns_append, List.take_append_drop]
    have htake : (withReturns r).take (withReturns (r.take n)).length =
        withReturns (r.take n) := by
      rw [hsplit, List.take_left]
    have hdrop : (withReturns r).drop (withReturns (r.take n)).length =
        withReturns (r.drop n) := by
      nth_rewrite 1 [hsplit]
      rw [List.drop_left]
    dsimp only
    rw [htake, hdrop, ← withReturns_cons hc]
    have hkind' : kind = .blockComment ∨ kind = .unknown ∨
        kind = .literal .string ∧ (c :: r.take n).head? = some '\x60' := by
      simpa using hkind
    exact (hrest _ _ (hcut n) (hshorter n)).lines (hcut n) (by simpa using hc) hkind'
  | @ended kind n hline hnext hkind =>
    obtain ⟨q, hq, htake, hdrop⟩ := cut_ended hline hnext
    have hline' : '\n' ∉ c :: r.take n := by simp [Ne.symm hc, hline]
    have hall : t = a ++ (c :: r.take n) ++ '\n' :: q := by rw [← hq, ← hcut n]
    have hlength : q.length ≤ r.length := by
      have hle := hshorter n
      rw [hq, List.length_cons] at hle
      omega
    dsimp only
    rw [htake, hdrop, hq]
    exact (hrest _ q (by simp [hall]) hlength).ended hall hline' hkind

/-- **The tokens behind a front of a text correspond.** -/
theorem follows_of_eq_append (rest : Text) (h : t = a ++ rest) : Follows t a rest := by
  -- what stands behind the first lexeme is shorter
  induction hlength : rest.length using Nat.strong_induction_on generalizing rest a with
  | _ k ih =>
    have hbehind (b q : Text) (hb : t = b ++ q) (hq : q.length < k) : Follows t b q :=
      ih q.length hq q hb rfl
    match rest with
    | [] => exact .nil
    | c :: r =>
      rw [List.length_cons] at hlength
      by_cases hc : c = '\n'
      · subst hc
        exact (hbehind _ r (by simp [h]) (by omega)).newline h
      · exact .cons hc h fun b q hb hq => hbehind b q hb (by omega)

end Follows

/-- **The tokens of a text other than blanks.** -/
theorem forall₂_body (t : Text) :
    List.Forall₂ (Widened t) (visible (body t)) (visible (body (withReturns t))) := by
  have hhead := head?_withReturns (t := t) (c := byteOrderMark) (by decide) (by decide)
  unfold body bodyStart
  by_cases hmark : t.head? = some byteOrderMark
  · obtain ⟨rest, rfl⟩ := List.head?_eq_some_iff.1 hmark
    have hreturns : withReturns (byteOrderMark :: rest) = byteOrderMark :: withReturns rest :=
      withReturns_cons (by decide) rest
    simp only [hreturns, List.head?_cons, if_true, List.tail_cons]
    exact follows_of_eq_append (a := [byteOrderMark]) rest rfl
  · simp only [hmark, mt hhead.1 hmark, if_false]
    exact follows_of_eq_append (a := []) t rfl

end GoTree.Token
