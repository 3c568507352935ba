import GoTree.Proofs.Token.Returns

/-!
# Kinds by spelling and longest match

How far a lexeme reaches is decided by what it takes in and by the one fact that the text does not
go on in the same way: the lexeme by itself is measured as before.  So a token by itself is one
token, of the same kind.  As each fixed spelling by itself is the token it spells, a token spelled
like a symbol or a keyword is that symbol or keyword; and the symbols are the longest ones that fit.

## Main definitions

* `Lexeme.Contained`, `Lexeme.SelfContained`: counts and measures that look no further than what
  they take in

## Main results

* `Lexeme.measure_take`: the lexeme at the front of a text by itself
* `Token.exists_measured_of_mem_ofText`: every token of a text was measured where it starts
* `Token.kind_determined`: spelling, kind and longest match of the tokens of a text
-/

namespace GoTree

namespace Token

open GoTree.Text

namespace Lexeme

/-! ### Counts that look no further than what they take in -/

/-- **A count that looks no further than the characters it counts:** it is the same on every part
at the front of the text that holds them. -/
def Contained (n : Text → Nat) : Prop :=
  ∀ t k, n t ≤ k → n (t.take k) = n t

theorem contained_zero : Contained fun _ => 0 :=
  fun _ _ _ => rfl

theorem contained_run (p : Char → Bool) : Contained (run p) := by
  intro t
  induction t with
  | nil => simp
  | cons c t ih =>
    intro k hk
    rw [run_cons] at hk ⊢
    cases k with
    | zero =>
      split at hk
      · simp at hk
      · rename_i hp
        rw [if_neg hp]
        rfl
    | succ k =>
      rw [List.take_succ_cons, run_cons]
      split
      · rename_i hp
        rw [if_pos hp] at hk
        rw [ih k (Nat.le_of_succ_le_succ hk)]
      · rfl

theorem contained_single (p : Char → Bool) : Contained (single p) := by
  intro t k hk
  cases k with
  | zero =>
    rw [Nat.le_zero.1 hk]
    rfl
  | succ k =>
    unfold single
    rw [List.take_take, Nat.min_eq_left (Nat.le_add_left 1 k)]

theorem Contained.ite {n m : Text → Nat} {P : Prop} [Decidable P] (hn : Contained n)
    (hm : Contained m) : Contained fun t => if P then n t else m t := by
  by_cases hP : P
  · simpa only [if_pos hP] using hn
  · simpa only [if_neg hP] using hm

/-- The second of two counts starts at the same place. -/
theorem Contained.drop {n m : Text → Nat} (hn : Contained n) (hm : Contained m) {t : Text} {k : Nat}
    (hk : n t + m (t.drop (n t)) ≤ k) : m ((t.take k).drop (n (t.take k))) = m (t.drop (n t)) := by
  rw [hn t k (by omega), List.drop_take]
  exact hm _ _ (by omega)

/-- One count after another. -/
theorem Contained.add {n m : Text → Nat} (hn : Contained n) (hm : Contained m) :
    Contained fun t => n t + m (t.drop (n t)) := by
  intro t k hk
  have hle : n t ≤ k := Nat.le_of_add_right_le hk
  show n (t.take k) + m ((t.take k).drop (n (t.take k))) = n t + m (t.drop (n t))
  rw [hn.drop hm hk, hn t k hle]

/-- A count that goes on from another one if that finds something. -/
theorem Contained.guard {n m : Text → Nat} (hn : Contained n) (hm : Contained m)
    (hle : ∀ t, n t ≤ m t) : Contained fun t => if n t = 0 then 0 else m t := by
  intro t k hk
  dsimp only at hk ⊢
  by_cases hzero : n t = 0
  · rw [if_pos hzero, hn t k (by omega), if_pos hzero]
  · rw [if_neg hzero] at hk ⊢
    rw [hn t k ((hle t).trans hk), if_neg hzero, hm t k hk]

theorem contained_fraction (hex : Bool) : Contained (fraction hex) := by
  have hpoint := contained_single (· == '.')
  exact hpoint.guard (hpoint.add (contained_run _)) fun t => Nat.le_add_right _ _

theorem contained_exponent (hex : Bool) : Contained (exponent hex) := by
  have hmark := contained_single (isPower hex)
  have hsigned : Contained (signedMark hex) := hmark.add (contained_single _)
  refine hmark.guard (hsigned.add (contained_run _)) fun t => ?_
  unfold signedMark
  omega

/-! ### Measures that look no further than what they take in -/

/-- **A measure that looks no further than the characters it takes in:** a part at the front of the
text that holds them is measured as the text is. -/
def SelfContained (f : Text → Kind × Nat) : Prop :=
  ∀ t k, (f t).2 ≤ k → f (t.take k) = f t

theorem selfContained_const (kind : Kind) : SelfContained fun _ => (kind, 0) :=
  fun _ _ _ => rfl

theorem selfContained_run (kind : Kind) (p : Char → Bool) :
    SelfContained fun t => (kind, run p t) := by
  intro t k hk
  exact congrArg (Prod.mk kind) (contained_run p t k hk)

/-- A test that comes out the same on every part that holds the characters taken in. -/
theorem SelfContained.ite {P : Text → Prop} [DecidablePred P] {f g : Text → Kind × Nat}
    (hback : ∀ t k, P (t.take k) → P t) (hkeep : ∀ t k, P t → (f t).2 ≤ k → P (t.take k))
    (hf : SelfContained f) (hg : SelfContained g) :
    SelfContained fun t => if P t then f t else g t := by
  intro t k hk
  dsimp only at hk ⊢
  by_cases hP : P t
  · rw [if_pos hP] at hk ⊢
    rw [if_pos (hkeep t k hP hk), hf t k hk]
  · rw [if_neg hP] at hk ⊢
    rw [if_neg (mt (hback t k) hP), hg t k hk]

/-- A test of the first character only. -/
theorem SelfContained.ite_const {P : Prop} [Decidable P] {f g : Text → Kind × Nat}
    (hf : SelfContained f) (hg : SelfContained g) :
    SelfContained fun t => if P then f t else g t :=
  .ite (fun _ _ => id) (fun _ _ h _ => h) hf hg

theorem single_mono {p q : Char → Bool} (h : ∀ c, p c = true → q c = true) (t : Text) :
    single p t ≤ single q t := by
  cases t with
  | nil => exact Nat.le_refl 0
  | cons c t =>
    rw [single_cons, single_cons]
    split
    · rename_i hp
      rw [if_pos (h c hp)]
    · exact Nat.zero_le _

/-- A number by itself has the same base. -/
theorem isHex_take {c : Char} {t : Text} {k : Nat} (hk : baseMark c t ≤ k) :
    isHex c (t.take k) = isHex c t := by
  unfold isHex
  by_cases hc : c = '0'
  · rw [baseMark, if_pos hc] at hk
    have hle : single (fun d => d == 'x' || d == 'X') t ≤ k := by
      refine (single_mono (fun d hd => ?_) t).trans hk
      rw [hd]
      rfl
    rw [contained_single _ t k hle]
  · rw [beq_eq_false_iff_ne.2 hc, Bool.false_and, Bool.false_and]

theorem selfContained_measureNumber (c : Char) : SelfContained (measureNumber c) := by
  intro t k hk
  generalize hhex : isHex c t = hex
  have hmark : Contained (baseMark c) := (contained_single _).ite contained_zero
  have hwhole : Contained (wholeDigits hex c) := hmark.add (contained_run _)
  have hpart : Contained (fractionOf hex c) := contained_zero.ite (contained_fraction hex)
  have hmantissa : Contained (mantissa hex c) := hwhole.add hpart
  have hscaled : Contained (scaled hex c) := hmantissa.add (contained_exponent hex)
  rw [measureNumber_eq hhex] at hk ⊢
  -- every part stops before the number does
  have hscaledLe : scaled hex c t ≤ k := Nat.le_of_add_right_le hk
  have hmantissaLe : mantissa hex c t ≤ k := Nat.le_of_add_right_le hscaledLe
  have hwholeLe : wholeDigits hex c t ≤ k := Nat.le_of_add_right_le hmantissaLe
  have hhex' := isHex_take (Nat.le_of_add_right_le hwholeLe)
  rw [measureNumber_eq (hhex'.trans hhex), hscaled.drop (contained_single _) hk,
    hwhole.drop hpart hmantissaLe, hmantissa.drop (contained_exponent hex) hscaledLe,
    hscaled t k hscaledLe]

section Quoted

variable {quote : Char} {l : Literal}

/-- A quoted literal takes in any character but a line feed. -/
theorem measureQuoted_pos (hslash : quote ≠ '\\') {c : Char} (hc : c ≠ '\n') (t : Text) :
    0 < (measureQuoted quote l (c :: t)).2 := by
  by_cases hquote : c = quote
  · rw [hquote, measureQuoted_quote]
    exact Nat.one_pos
  by_cases hescape : c = '\\'
  · subst hescape
    match t with
    | [] =>
      rw [measureQuoted_singleton hquote hc]
      exact Nat.one_pos
    | d :: t =>
      by_cases hd : d = '\n'
      · rw [hd, measureQuoted_escape_newline hslash]
        exact Nat.one_pos
      · rw [measureQuoted_escape hslash hd]
        exact Nat.succ_pos _
  · rw [measureQuoted_cons hquote hc hescape]
    exact Nat.succ_pos _

theorem selfContained_measureQuoted (hslash : quote ≠ '\\') (hfeed : quote ≠ '\n') :
    SelfContained (measureQuoted quote l) := by
  intro t
  -- an escape takes two characters, so the induction is on the length
  induction hlength : t.length using Nat.strong_induction_on generalizing t with
  | _ n ih =>
    intro k hk
    match t with
    | [] => rw [List.take_nil]
    | c :: t =>
      rw [List.length_cons] at hlength
      by_cases hc : c = '\n'
      · -- the literal ends before the line feed, whether or not the part holds it
        subst hc
        rw [measureQuoted_newline hfeed]
        cases k with
        | zero => rfl
        | succ k => rw [List.take_succ_cons, measureQuoted_newline hfeed]
      · obtain ⟨k, rfl⟩ := Nat.exists_eq_add_of_le' ((measureQuoted_pos hslash hc t).trans_le hk)
        rw [List.take_succ_cons]
        by_cases hquote : c = quote
        · rw [hquote, measureQuoted_quote, measureQuoted_quote]
        by_cases hescape : c = '\\'
        · subst hescape
          match t with
          | [] => rw [List.take_nil]
          | d :: t =>
            rw [List.length_cons] at hlength
            by_cases hd : d = '\n'
            · subst hd
              rw [measureQuoted_escape_newline hslash]
              cases k with
              | zero => exact measureQuoted_singleton hquote hc
              | succ k => rw [List.take_succ_cons, measureQuoted_escape_newline hslash]
            · rw [measureQuoted_escape hslash hd] at hk ⊢
              obtain ⟨k, rfl⟩ := Nat.exists_eq_add_of_le' (show 1 ≤ k by omega)
              rw [List.take_succ_cons, measureQuoted_escape hslash hd,
                ih t.length (by omega) t rfl k (Nat.le_of_add_le_add_right hk)]
        · rw [measureQuoted_cons hquote hc hescape] at hk ⊢
          rw [measureQuoted_cons hquote hc hescape,
            ih t.length (by omega) t rfl k (Nat.le_of_add_le_add_right hk)]

end Quoted

theorem selfContained_measureRaw : SelfContained measureRaw := by
  intro t
  induction t with
  | nil => exact fun k _ => by rw [List.take_nil]
  | cons c t ih =>
    intro k hk
    rw [measureRaw_cons] at hk ⊢
    cases k with
    | zero => split at hk <;> simp at hk
    | succ k =>
      rw [List.take_succ_cons, measureRaw_cons]
      split
      · rfl
      · rename_i hc
        rw [if_neg hc] at hk
        rw [ih k (Nat.le_of_succ_le_succ hk)]

/-- A part at the front of a text starts with no other character than the text. -/
theorem head?_of_take {t : Text} {k : Nat} {c : Char} (h : (t.take k).head? = some c) :
    t.head? = some c := by
  rw [List.head?_take] at h
  split at h
  · simp at h
  · exact h

theorem head?_take_of_pos {t : Text} {k : Nat} (hk : 0 < k) : (t.take k).head? = t.head? := by
  rw [List.head?_take, if_neg (Nat.ne_of_gt hk)]

theorem selfContained_measureComment : SelfContained measureComment := by
  intro t
  induction t with
  | nil => exact fun k _ => by rw [List.take_nil]
  | cons c t ih =>
    intro k hk
    rw [measureComment_cons] at hk ⊢
    cases k with
    | zero => split at hk <;> simp at hk
    | succ k =>
      rw [List.take_succ_cons, measureComment_cons]
      by_cases hclose : c = '*' ∧ t.head? = some '/'
      · rw [if_pos hclose] at hk ⊢
        have hpos : 0 < k := Nat.le_of_succ_le_succ hk
        rw [if_pos ⟨hclose.1, (head?_take_of_pos hpos).trans hclose.2⟩]
      · rw [if_neg hclose] at hk ⊢
        rw [if_neg fun hopen => hclose ⟨hopen.1, head?_of_take hopen.2⟩,
          ih k (Nat.le_of_succ_le_succ hk)]

theorem selfContained_block : SelfContained fun t =>
    ((measureComment (t.drop 1)).1, (measureComment (t.drop 1)).2 + 1) := by
  intro t k hk
  dsimp only at hk ⊢
  rw [List.drop_take, selfContained_measureComment (t.drop 1) (k - 1) (Nat.le_sub_of_add_le hk)]

theorem selfContained_measureWord (c : Char) : SelfContained (measureWord c) := by
  intro t k hk
  have hrun : run isNamePart t ≤ k := by
    unfold measureWord at hk
    dsimp only at hk
    split at hk <;> exact hk
  unfold measureWord
  dsimp only
  rw [contained_run _ t k hrun, List.take_take, Nat.min_eq_left hrun]

theorem selfContained_measureSymbol (c : Char) : SelfContained (measureSymbol c) := by
  intro t k hk
  have hprefix : c :: t.take k <+: c :: t := by
    rw [List.prefix_cons_inj]
    exact List.take_prefix k t
  unfold measureSymbol at hk ⊢
  cases hs : Symbol.longest? (c :: t) with
  | none =>
    -- what fits on a part also fits on the text
    cases hs' : Symbol.longest? (c :: t.take k) with
    | none => rfl
    | some s =>
      have hfits := (Symbol.longest?_eq_some_iff.1 hs').1.trans hprefix
      exact absurd hs (Symbol.longest?_ne_none hfits)
  | some s =>
    rw [hs] at hk
    have hfits := (Symbol.longest?_eq_some_iff.1 hs).1
    have hlength : s.chars.length ≤ (c :: t.take k).length := by
      have hle := hfits.length_le
      rw [List.length_cons] at hle
      rw [List.length_cons, List.length_take]
      replace hk : s.chars.length - 1 ≤ k := hk
      omega
    rw [Symbol.longest?_of_prefix hs hprefix (List.prefix_of_prefix_length_le hfits hprefix hlength)]

/-- A number that starts with its point takes in the digit behind it. -/
theorem measureNumber_point_pos {d : Char} (hd : d.isDigit = true) (t : Text) :
    0 < (measureNumber '.' (d :: t)).2 := by
  rw [measureNumber_eq rfl]
  show 0 < scaled _ '.' (d :: t) + _
  unfold scaled mantissa wholeDigits
  have hmark : baseMark '.' (d :: t) = 0 := rfl
  rw [hmark, List.drop_zero, run_cons, if_pos]
  · omega
  · simp [isDigitOrMark, hd]

/-- **A lexeme looks no further than its own characters.** -/
theorem selfContained_measure (atStart : Bool) (c : Char) : SelfContained (measure atStart c) := by
  -- a part that is not empty starts as the text does
  have keeps {t : Text} {k : Nat} {d : Char} (hk : 0 < k) (h : c = '/' ∧ t.head? = some d) :
      c = '/' ∧ (t.take k).head? = some d :=
    ⟨h.1, (head?_take_of_pos hk).trans h.2⟩
  -- the tests come in the order in which the measure makes them
  refine .ite_const (selfContained_const _) (.ite_const (selfContained_const _)
    (.ite_const (selfContained_run _ _) ?_))
  refine .ite (fun _ _ h => ⟨h.1, head?_of_take h.2⟩) ?_ (selfContained_run _ _) ?_
  · intro t k h hk
    obtain ⟨rest, rfl⟩ := List.head?_eq_some_iff.1 h.2
    refine keeps (Nat.lt_of_lt_of_le ?_ hk) h
    rw [run_cons, if_pos (by decide)]
    exact Nat.succ_pos _
  refine .ite (fun _ _ h => ⟨h.1, head?_of_take h.2⟩) ?_ selfContained_block ?_
  · intro t k h hk
    obtain ⟨rest, rfl⟩ := List.head?_eq_some_iff.1 h.2
    exact keeps (Nat.lt_of_lt_of_le (Nat.succ_pos _) hk) h
  refine .ite (fun t k h => h.imp_right fun hpoint => ⟨hpoint.1, ?_⟩) ?_
    (selfContained_measureNumber c) ?_
  · obtain ⟨d, hd, hdigit⟩ := (Option.any_eq_true _ _).1 hpoint.2
    exact (Option.any_eq_true _ _).2 ⟨d, head?_of_take hd, hdigit⟩
  · rintro t k (hdigit | ⟨rfl, hdigit⟩) hk
    · exact .inl hdigit
    · obtain ⟨d, hd, hdigit'⟩ := (Option.any_eq_true _ _).1 hdigit
      obtain ⟨rest, rfl⟩ := List.head?_eq_some_iff.1 hd
      have hpos := Nat.lt_of_lt_of_le (measureNumber_point_pos hdigit' rest) hk
      exact .inr ⟨rfl, by rwa [head?_take_of_pos hpos]⟩
  exact .ite_const (selfContained_measureQuoted (by decide) (by decide))
    (.ite_const (selfContained_measureQuoted (by decide) (by decide))
      (.ite_const selfContained_measureRaw
        (.ite_const (selfContained_measureWord c) (selfContained_measureSymbol c))))

/-- The lexeme at the front of a text takes in no more than its own characters. -/
theorem measure_take (atStart : Bool) (c : Char) (t : Text) :
    measure atStart c (t.take (measure atStart c t).2) = measure atStart c t :=
  selfContained_measure atStart c t _ (Nat.le_refl _)

/-! ### Lexemes by themselves -/

/-- A byte order mark is a lexeme of one character wherever it stands. -/
theorem measure_mark (atStart : Bool) (t : Text) : (measure atStart byteOrderMark t).2 = 0 := by
  cases atStart with
  | true => rfl
  | false =>
    have hdigit : byteOrderMark.isDigit = false := by decide
    have hname : isNameStart byteOrderMark = false := by decide +kernel
    rw [measure_of_not_mem_arms (by decide), hdigit, hname]
    rfl

/-- **A lexeme by itself** is one lexeme, of the same kind. -/
theorem cut_measured {atStart : Bool} {c : Char} {t : Text}
    (hne : c :: t.take (measure atStart c t).2 ≠ [byteOrderMark]) :
    cut (c :: t.take (measure atStart c t).2) =
      [⟨(measure atStart c t).1, c :: t.take (measure atStart c t).2⟩] := by
  have hmark : c ≠ byteOrderMark := by
    rintro rfl
    rw [measure_mark] at hne
    exact hne rfl
  rw [cut_cons, measure_of_ne_mark hmark true atStart, measure_take, List.take_take, Nat.min_self,
    List.drop_take, Nat.sub_self, List.take_zero]
  rfl

/-- A fixed spelling by itself is the symbol or keyword that it spells. -/
theorem cut_spelling {kind : Kind} {s : String} (h : kind.spelling? = some s) :
    cut s.toList = [⟨kind, s.toList⟩] := by
  have hsymbols : ∀ symbol ∈ Symbol.all,
      cut symbol.spelling.toList = [⟨.symbol symbol, symbol.spelling.toList⟩] := by
    decide +kernel
  have hkeywords : ∀ keyword ∈ Keyword.all,
      cut keyword.spelling.toList = [⟨.keyword keyword, keyword.spelling.toList⟩] := by
    decide +kernel
  cases kind with
  | symbol symbol =>
    obtain rfl : symbol.spelling = s := Option.some.inj h
    exact hsymbols symbol symbol.mem_all
  | keyword keyword =>
    obtain rfl : keyword.spelling = s := Option.some.inj h
    exact hkeywords keyword keyword.mem_all
  | _ => simp [Kind.spelling?] at h

/-- A measure gives a symbol only as the longest one at the front of the text. -/
def FindsLongest (c : Char) (t : Text) (x : Kind × Nat) : Prop :=
  ∀ symbol, x.1 = .symbol symbol → Symbol.longest? (c :: t) = some symbol

theorem FindsLongest.ite {c : Char} {t : Text} {x y : Kind × Nat} {P : Prop} [Decidable P]
    (hx : FindsLongest c t x) (hy : FindsLongest c t y) :
    FindsLongest c t (if P then x else y) := by
  split
  · exact hx
  · exact hy

theorem findsLongest_measureSymbol (c : Char) (t : Text) :
    FindsLongest c t (measureSymbol c t) := by
  intro symbol h
  unfold measureSymbol at h
  split at h
  · rename_i found hfound
    obtain rfl : found = symbol := Kind.symbol.inj h
    exact hfound
  · simp at h

/-- **A lexeme is a symbol** only as the longest one at the front of the text. -/
theorem findsLongest_measure (atStart : Bool) (c : Char) (t : Text) :
    FindsLongest c t (measure atStart c t) := by
  have other {x : Kind × Nat} (hx : ∀ symbol, x.1 ≠ .symbol symbol) : FindsLongest c t x :=
    fun symbol h => absurd h (hx symbol)
  have hquoted (quote : Char) (l : Literal) : FindsLongest c t (measureQuoted quote l t) := by
    refine other fun symbol => ?_
    unfold measureQuoted
    dsimp only
    split <;> simp
  have hraw : FindsLongest c t (measureRaw t) := by
    refine other fun symbol => ?_
    unfold measureRaw
    dsimp only
    split <;> simp
  have hword : FindsLongest c t (measureWord c t) := by
    refine other fun symbol => ?_
    unfold measureWord
    dsimp only
    split <;> simp
  -- the tests come in the order in which the measure makes them
  refine .ite (other (by simp)) (.ite (other (by simp)) (.ite (other (by simp))
    (.ite (other (by simp)) (.ite (other ?_) (.ite (other ?_) (.ite (hquoted _ _)
      (.ite (hquoted _ _) (.ite hraw (.ite hword (findsLongest_measureSymbol c t))))))))))
  · intro symbol
    rcases measureComment_kind (t.drop 1) with hkind | hkind
    all_goals
      dsimp only
      rw [hkind]
      exact nofun
  · simp [measureNumber]

end Lexeme

/-! ### Tokens of a text -/

/-- **How a token of a text was measured:** where it starts, and on what follows it there. -/
structure Measured (t front : Text) (c : Char) (tail : Text) (token : Token) : Prop where
  text_eq : t = front ++ c :: tail
  start_eq : token.start = front.size
  kind_eq : token.kind = (Lexeme.measure (decide (front = [])) c tail).1
  chars_eq : token.text = c :: tail.take (Lexeme.measure (decide (front = [])) c tail).2

theorem exists_measured_of_mem_place {before rest : Text} {token : Token}
    (h : token ∈ place before.size (Lexeme.behind before rest)) :
    ∃ front c tail, Measured (before ++ rest) front c tail token := by
  -- what follows the first token is shorter
  induction hn : rest.length using Nat.strong_induction_on generalizing before rest with
  | _ n ih =>
    cases rest with
    | nil => simp at h
    | cons c tail =>
      rw [Lexeme.behind_cons, place_cons, ← Text.size_append, List.mem_cons] at h
      rcases h with rfl | h
      · exact ⟨before, c, tail, rfl, rfl, rfl, rfl⟩
      · have hlt : (tail.drop (Lexeme.measure (decide (before = [])) c tail).2).length < n := by
          rw [List.length_cons] at hn
          rw [List.length_drop]
          omega
        obtain ⟨front, d, more, hmeasured⟩ := ih _ hlt h rfl
        rw [List.append_assoc, List.cons_append, List.take_append_drop] at hmeasured
        exact ⟨front, d, more, hmeasured⟩

/-- Every token of a text was measured where it starts. -/
theorem exists_measured_of_mem_ofText {t : Text} {token : Token} (h : token ∈ ofText t) :
    ∃ front c tail, Measured t front c tail token := by
  have hplace : token ∈ place (Text.size []) (Lexeme.behind [] t) := ofText_eq_place t ▸ h
  exact exists_measured_of_mem_place hplace

/-- **A token by itself** is one token, of the same kind, unless it is a byte order mark. -/
theorem ofText_text {t : Text} {token : Token} (h : token ∈ ofText t)
    (hne : token.text ≠ [byteOrderMark]) : ofText token.text = [⟨token.kind, 0, token.text⟩] := by
  obtain ⟨front, c, tail, -, -, hkind, htext⟩ := exists_measured_of_mem_ofText h
  rw [htext] at hne ⊢
  rw [ofText_eq_place, Lexeme.cut_measured hne, hkind]
  rfl

/-- A token has the spelling of its kind. -/
theorem text_of_spelling? {t : Text} {token : Token} (h : token ∈ ofText t) {s : String}
    (hs : token.kind.spelling? = some s) : token.text = s.toList := by
  rcases mem_ofText h with rfl | h
  · simp [Kind.spelling?] at hs
  · have hproper := (proper_of_mem_body h).2
    unfold Proper Lexeme.Proper at hproper
    cases hkind : token.kind with
    | symbol symbol =>
      rw [hkind] at hs hproper
      obtain rfl : symbol.spelling = s := Option.some.inj hs
      exact hproper
    | keyword keyword =>
      rw [hkind] at hs hproper
      obtain rfl : keyword.spelling = s := Option.some.inj hs
      exact hproper
    | _ => simp [hkind, Kind.spelling?] at hs

/-- **A token with a fixed spelling** is what the spelling says. -/
theorem kind_of_spelling? {t : Text} {token : Token} (h : token ∈ ofText t) {kind : Kind}
    {s : String} (hs : kind.spelling? = some s) (htext : token.text = s.toList) :
    token.kind = kind := by
  have hcut := Lexeme.cut_spelling hs
  have hne : token.text ≠ [byteOrderMark] := by
    rintro hmark
    rw [← htext, hmark] at hcut
    obtain rfl : Kind.whitespace = kind := congrArg Lexeme.kind (List.cons.inj hcut).1
    simp [Kind.spelling?] at hs
  have hself := ofText_text h hne
  rw [ofText_eq_place, htext, hcut] at hself
  exact (congrArg Token.kind (List.cons.inj hself).1).symm

/-- **Kinds are determined by spelling and longest match.**  A token of a kind with a fixed spelling
is spelled so, and a token with the spelling of a kind is of that kind; so no name is a keyword.  No
longer symbol than a symbol of the text fits where that one starts.  And a token by itself is one
token, of the same kind, unless it is a byte order mark. -/
theorem kind_determined {t : Text} {token : Token} (h : token ∈ ofText t) :
    t.slice? token.start token.stop = some token.text ∧
    (∀ s, token.kind.spelling? = some s → token.text = s.toList) ∧
    (∀ kind s, kind.spelling? = some s → token.text = s.toList → token.kind = kind) ∧
    (token.kind = .name → ∀ (kind : Kind) (s : String), kind.isKeyword = true →
      kind.spelling? = some s → token.text ≠ s.toList) ∧
    (∀ symbol before rest, token.kind = .symbol symbol → t = before ++ rest →
      before.size = token.start → ∀ longer : Symbol, longer.chars <+: rest →
      longer.chars.length ≤ symbol.chars.length) ∧
    (token.text ≠ [byteOrderMark] → ofText token.text = [⟨token.kind, 0, token.text⟩]) := by
  refine ⟨(tiles_ofText t).slice?_of_mem h, fun s => text_of_spelling? h,
    fun kind s => kind_of_spelling? h, ?_, ?_, ofText_text h⟩
  · intro hname kind s hkeyword hs htext
    have hkind : token.kind = kind := kind_of_spelling? h hs htext
    rw [← hkind, hname] at hkeyword
    simp [Kind.isKeyword] at hkeyword
  · intro symbol before rest hkind htext hstart longer hlonger
    obtain ⟨front, c, tail, htext', hsize, hmeasured, -⟩ := exists_measured_of_mem_ofText h
    -- the text is cut at one place only
    have hcut := splitAt?_append before rest
    rw [hstart, hsize, ← htext, htext', splitAt?_append, Option.some.injEq, Prod.mk.injEq] at hcut
    rw [← hcut.2] at hlonger
    rw [hkind] at hmeasured
    have hlongest := Lexeme.findsLongest_measure _ c tail symbol hmeasured.symm
    exact (Symbol.longest?_eq_some_iff.1 hlongest).2 longer hlonger

/-- The longest of four symbols that start alike. -/
theorem kind_determined_assign :
    ⟨.symbol .ampCaretAssign, 1, "&^=".toList⟩ ∈ ofText "a&^=b".toList ∧
      (∀ longer : Symbol, longer.chars <+: "&^=b".toList → longer.chars.length ≤ 3) ∧
      ofText "&^=".toList = [⟨.symbol .ampCaretAssign, 0, "&^=".toList⟩] := by
  have h : ⟨.symbol .ampCaretAssign, 1, "&^=".toList⟩ ∈ ofText "a&^=b".toList := by decide +kernel
  obtain ⟨-, -, -, -, hlongest, hself⟩ := kind_determined h
  exact ⟨h, hlongest .ampCaretAssign ['a'] "&^=b".toList rfl rfl rfl, hself (by decide)⟩

end Token

end GoTree
