import Mathlib.Data.List.TakeWhile
import GoTree.Proofs.Text.Bytes
import GoTree.Proofs.Token.Measure

/-!
# What lexemes look like

The lexemes of a text make it up, and the kind of a lexeme tells what its characters can be.  Only
what a reader of tokens relies on is recorded: fixed spellings, which lexemes are blank, how comments
start and end, and which lexemes can hold a carriage return.

## Main definitions

* `Lexeme.Proper`: what the characters of a lexeme of some kind are
* `Lexeme.behind`: the lexemes of what follows a part of a text

## Main results

* `Lexeme.proper_measure`: the lexeme at the front of a text
* `Lexeme.cut_eq`: a byte order mark is cut off first
* `Lexeme.of_mem_cutRest`: all other lexemes of a text
-/

namespace GoTree.Token.Lexeme

/-- **What the characters of a lexeme of some kind are.**  A raw string ends with the back quote it
starts with; other literals hold no carriage return unless they are quoted. -/
def Proper (lexeme : Lexeme) : Prop :=
  match lexeme.kind with
  | .symbol s => lexeme.text = s.chars
  | .keyword k => lexeme.text = k.spelling.toList
  | .literal l =>
    (lexeme.text.head? = some '\x60' ∧ lexeme.text.getLast? = some '\x60') ∨
      (lexeme.text.head? ≠ some '\x60' ∧ (l = .char ∨ l = .string ∨ '\r' ∉ lexeme.text))
  | .name => '\r' ∉ lexeme.text
  | .whitespace | .newline => lexeme.text.Blank
  | .lineComment => ∃ rest, lexeme.text = '/' :: '/' :: rest
  | .blockComment => ∃ rest, lexeme.text = '/' :: rest ∧ lexeme.text.getLast? = some '/'
  | .unknown => True
  | .endOfFile => False

/-! ### Runs of characters -/

theorem take_run (p : Char → Bool) (t : Text) : t.take (run p t) = t.takeWhile p :=
  (List.prefix_iff_eq_take.1 (List.takeWhile_prefix p)).symm

theorem of_mem_take_run {p : Char → Bool} {t : Text} {c : Char} (h : c ∈ t.take (run p t)) :
    p c = true := by
  rw [take_run] at h
  exact List.mem_takeWhile_imp h

/-- The character after a run that does not reach the end. -/
theorem getElem?_run {p : Char → Bool} {t : Text} (h : run p t < t.length) :
    ∃ c, t[run p t]? = some c ∧ p c = false := by
  have hdrop : t.drop (run p t) = t.dropWhile p := by
    have hsplit := List.takeWhile_append_dropWhile (p := p) (l := t)
    have hcut := List.take_append_drop (run p t) t
    rw [take_run] at hcut
    exact List.append_cancel_left (hcut.trans hsplit.symm)
  obtain ⟨c, hc⟩ : ∃ c, t[run p t]? = some c := ⟨_, List.getElem?_eq_getElem h⟩
  refine ⟨c, hc, ?_⟩
  have hhead := List.head?_dropWhile_not p t
  rw [← hdrop, List.head?_drop, hc] at hhead
  simpa using hhead

/-- No carriage return is among the first characters. -/
def Free (t : Text) (n : Nat) : Prop :=
  '\r' ∉ t.take n

theorem free_run {p : Char → Bool} (h : p '\r' = false) (t : Text) : Free t (run p t) := by
  intro hmem
  have hp := of_mem_take_run hmem
  simp [h] at hp

theorem free_single {p : Char → Bool} (h : p '\r' = false) (t : Text) : Free t (single p t) := by
  intro hmem
  refine free_run h (t.take 1) ?_
  have hle : single p t ≤ 1 := by
    have hlength := (List.takeWhile_prefix p (l := t.take 1)).length_le
    simp only [List.length_take] at hlength
    unfold single run
    omega
  have hmin : min (run p (t.take 1)) 1 = single p t := Nat.min_eq_left hle
  rwa [List.take_take, hmin]

theorem free_zero (t : Text) : Free t 0 := by
  simp [Free]

/-- Two stretches without carriage returns, one after the other. -/
theorem Free.add {t : Text} {n m : Nat} (h : Free t n) (h' : Free (t.drop n) m) :
    Free t (n + m) := by
  intro hmem
  rw [List.take_add, List.mem_append] at hmem
  exact hmem.elim h h'

theorem Free.ite {t : Text} {n m : Nat} {P : Prop} [Decidable P] (h : Free t n) (h' : Free t m) :
    Free t (if P then n else m) := by
  split
  · exact h
  · exact h'

/-! ### Measured lexemes -/

theorem isDigitOrMark_return (hex : Bool) : isDigitOrMark hex '\r' = false := by
  cases hex <;> decide

theorem free_fraction (hex : Bool) (t : Text) : Free t (fraction hex t) := by
  unfold fraction
  split
  · exact free_zero t
  · have hpoint : Free t (single (· == '.') t) := free_single (by decide) t
    exact hpoint.add (free_run (isDigitOrMark_return hex) _)

theorem free_exponent (hex : Bool) (t : Text) : Free t (exponent hex t) := by
  unfold exponent
  split
  · exact free_zero t
  · have hmark : Free t (single
        (fun c => if hex then c == 'p' || c == 'P' else c == 'e' || c == 'E') t) :=
      free_single (by cases hex <;> decide) t
    have hsign : Free (t.drop (single
        (fun c => if hex then c == 'p' || c == 'P' else c == 'e' || c == 'E') t))
        (single (fun c => c == '+' || c == '-') _) := free_single (by decide) _
    exact (hmark.add hsign).add (free_run (isDigitOrMark_return false) _)

/-- A number holds no carriage return and does not start with a back quote. -/
theorem proper_measureNumber {c : Char} (hc : c.isDigit ∨ c = '.') (t : Text) :
    Proper ⟨(measureNumber c t).1, c :: t.take (measureNumber c t).2⟩ := by
  have hreturn : c ≠ '\r' := by
    rintro rfl
    simp at hc
  have hquote : c ≠ '\x60' := by
    rintro rfl
    simp at hc
  have hfree : Free t (measureNumber c t).2 := by
    unfold measureNumber
    dsimp only
    refine .add (.add (.add (.add ?_ (free_run (isDigitOrMark_return _) _)) ?_)
      (free_exponent _ _)) (free_single (by decide) _)
    · exact (free_single (by decide) t).ite (free_zero t)
    · exact (free_zero _).ite (free_fraction _ _)
  refine .inr ⟨by simpa using hquote, .inr (.inr ?_)⟩
  rw [List.mem_cons, not_or]
  exact ⟨hreturn.symm, hfree⟩

/-- A quoted literal starts with its quote. -/
theorem proper_measureQuoted {quote : Char} {l : Literal} (hquote : quote ≠ '\x60')
    (hl : l = .char ∨ l = .string) (t : Text) :
    Proper ⟨(measureQuoted quote l t).1, quote :: t.take (measureQuoted quote l t).2⟩ := by
  unfold measureQuoted
  dsimp only
  split
  · refine .inr ⟨by simpa using hquote, ?_⟩
    exact hl.imp_right .inl
  · trivial

/-- A raw string ends with a back quote. -/
theorem proper_measureRaw (t : Text) :
    Proper ⟨(measureRaw t).1, '\x60' :: t.take (measureRaw t).2⟩ := by
  unfold measureRaw
  dsimp only
  split
  · rename_i hlt
    obtain ⟨c, hc, hquote⟩ := getElem?_run hlt
    obtain rfl : c = '\x60' := by simpa using hquote
    refine .inl ⟨rfl, ?_⟩
    rw [List.take_add_one, hc, Option.toList_some, ← List.cons_append, List.getLast?_concat]
  · trivial

/-- A word is spelled as its keyword, or holds no carriage return. -/
theorem proper_measureWord {c : Char} (hc : isNameStart c = true) (t : Text) :
    Proper ⟨(measureWord c t).1, c :: t.take (measureWord c t).2⟩ := by
  unfold measureWord
  dsimp only
  split
  · rename_i k hk
    have hspelling := Keyword.ofSpelling?_eq_some_iff.1 hk
    show c :: t.take (run isNamePart t) = k.spelling.toList
    rw [hspelling, String.toList_ofList]
  · show '\r' ∉ _
    rw [List.mem_cons, not_or]
    refine ⟨?_, free_run (by decide +kernel) t⟩
    rintro rfl
    exact absurd hc (by decide +kernel)

/-- The longest symbol at the front of a text has the first characters of the text. -/
theorem exists_take_of_longest? {t : Text} {s : Symbol} (h : Symbol.longest? t = some s) :
    ∃ n, s.chars = t.take (n + 1) := by
  unfold Symbol.longest? at h
  rw [Option.or_eq_some_iff, Option.or_eq_some_iff] at h
  rcases h with h | ⟨-, h | ⟨-, h⟩⟩
  · exact ⟨2, Symbol.ofChars?_eq_some h⟩
  · exact ⟨1, Symbol.ofChars?_eq_some h⟩
  · exact ⟨0, Symbol.ofChars?_eq_some h⟩

/-- A symbol is spelled as it is. -/
theorem proper_measureSymbol (c : Char) (t : Text) :
    Proper ⟨(measureSymbol c t).1, c :: t.take (measureSymbol c t).2⟩ := by
  unfold measureSymbol
  split
  · rename_i s hs
    obtain ⟨n, hn⟩ := exists_take_of_longest? hs
    rw [List.take_succ_cons] at hn
    show c :: t.take (s.chars.length - 1) = s.chars
    rw [hn, List.length_cons, Nat.add_sub_cancel, List.length_take]
    rw [← List.take_eq_take_min]
  · trivial

/-- A block comment ends with its closing. -/
theorem getLast?_measureComment {t : Text} (h : (measureComment t).1 = .blockComment) :
    (t.take (measureComment t).2).getLast? = some '/' := by
  induction t with
  | nil => simp [measureComment] at h
  | cons c t ih =>
    rw [measureComment_cons] at h ⊢
    split
    · rename_i hclose
      obtain ⟨rest, rfl⟩ := List.head?_eq_some_iff.1 hclose.2
      simp
    · rename_i hclose
      rw [if_neg hclose] at h
      rw [List.take_succ_cons, List.getLast?_cons, ih h]
      rfl

/-- **The lexeme at the front of a text** is proper, unless it is a byte order mark. -/
theorem proper_measure {atStart : Bool} {c : Char} (hmark : atStart = false ∨ c ≠ byteOrderMark)
    (t : Text) : Proper ⟨(measure atStart c t).1, c :: t.take (measure atStart c t).2⟩ := by
  -- the tests come in the order in which the measure makes them; each is settled before the next
  -- is opened, which keeps the nested conditionals out of the goals
  rw [measure]
  by_cases hstart : atStart = true ∧ c = byteOrderMark
  · obtain ⟨rfl, rfl⟩ := hstart
    simp at hmark
  rw [if_neg hstart]
  by_cases hnewline : c = '\n'
  · rw [if_pos hnewline]
    subst hnewline
    simp [Proper, Text.Blank]
  rw [if_neg hnewline]
  by_cases hspace : isSpace c = true
  · have hblank : ∀ {d : Char}, isSpace d = true → d.toNat ≤ 0x20 := by
      intro d hd
      simp only [isSpace, Bool.or_eq_true, beq_iff_eq] at hd
      rcases hd with (rfl | rfl) | rfl <;> decide
    rw [if_pos hspace, Proper, Text.blank_cons]
    exact ⟨hblank hspace, fun d hd => hblank (of_mem_take_run hd)⟩
  rw [if_neg hspace]
  by_cases hline : c = '/' ∧ t.head? = some '/'
  · rw [if_pos hline]
    obtain ⟨rfl, hhead⟩ := hline
    obtain ⟨rest, rfl⟩ := List.head?_eq_some_iff.1 hhead
    refine ⟨rest.takeWhile (· != '\n'), ?_⟩
    simp [take_run]
  rw [if_neg hline]
  by_cases hblock : c = '/' ∧ t.head? = some '*'
  · rw [if_pos hblock]
    obtain ⟨rfl, hhead⟩ := hblock
    obtain ⟨rest, rfl⟩ := List.head?_eq_some_iff.1 hhead
    rw [List.drop_one, List.tail_cons]
    dsimp only
    rcases measureComment_kind rest with hkind | hkind
    · have hlast := getLast?_measureComment hkind
      rw [hkind]
      refine ⟨_, rfl, ?_⟩
      rw [List.take_succ_cons, List.getLast?_cons, List.getLast?_cons, hlast]
      rfl
    · rw [hkind]
      trivial
  rw [if_neg hblock]
  by_cases hnumber : c.isDigit = true ∨ c = '.' ∧ t.head?.any Char.isDigit = true
  · rw [if_pos hnumber]
    exact proper_measureNumber (hnumber.imp_right And.left) t
  rw [if_neg hnumber]
  by_cases hstring : c = '\x22'
  · rw [if_pos hstring, hstring]
    exact proper_measureQuoted (by decide) (.inr rfl) t
  rw [if_neg hstring]
  by_cases hchar : c = '\x27'
  · rw [if_pos hchar, hchar]
    exact proper_measureQuoted (by decide) (.inl rfl) t
  rw [if_neg hchar]
  by_cases hraw : c = '\x60'
  · rw [if_pos hraw, hraw]
    exact proper_measureRaw t
  rw [if_neg hraw]
  by_cases hname : isNameStart c = true
  · rw [if_pos hname]
    exact proper_measureWord hname t
  · rw [if_neg hname]
    exact proper_measureSymbol c t

/-- No lexeme is the end of the text. -/
theorem measure_ne_endOfFile (atStart : Bool) (c : Char) (t : Text) :
    (measure atStart c t).1 ≠ .endOfFile := by
  by_cases hmark : atStart = true ∧ c = byteOrderMark
  · rw [measure, if_pos hmark]
    simp
  · have hother : atStart = false ∨ c ≠ byteOrderMark := by
      rwa [not_and_or, Bool.not_eq_true] at hmark
    intro hkind
    have hproper := proper_measure hother t
    simp [Proper, hkind] at hproper

/-- Any character but a byte order mark is measured alike everywhere in a text. -/
theorem measure_of_ne_mark {c : Char} (h : c ≠ byteOrderMark) (atStart atStart' : Bool) (t : Text) :
    measure atStart c t = measure atStart' c t := by
  simp only [measure, h, and_false, if_false]

/-- **Characters that start nothing but symbols.** -/
def StartsSymbol (c : Char) : Prop :=
  c ≠ '\n' ∧ isSpace c = false ∧ c ≠ '/' ∧ c.isDigit = false ∧ c ≠ '.' ∧
    c ∉ ['\x22', '\x27', '\x60'] ∧ isNameStart c = false

instance (c : Char) : Decidable (StartsSymbol c) :=
  inferInstanceAs (Decidable (_ ∧ _))

theorem measure_of_startsSymbol {c : Char} (h : StartsSymbol c) (t : Text) :
    measure false c t = measureSymbol c t := by
  obtain ⟨hnewline, hspace, hslash, hdigit, hdot, hquotes, hname⟩ := h
  simp only [List.mem_cons, List.not_mem_nil, or_false, not_or] at hquotes
  simp [measure, hnewline, hspace, hslash, hdigit, hdot, hquotes, hname]

/-- The characters that decide alone what can start with them. -/
def arms : List Char :=
  ['\n', ' ', '\t', '\r', '/', '(', ')', '[', ']', '\x7b', '\x7d', ',', ';', '.', ':', '+', '-', '*',
   '%', '&', '|', '^', '<', '>', '=', '!', '\x22', '\x60', '\x27']

theorem longest?_of_not_mem_arms {c : Char} (h : c ∉ arms) (t : Text) :
    Symbol.longest? (c :: t) = none := by
  refine Option.eq_none_iff_forall_ne_some.2 fun s hs => h ?_
  have harms : (s.chars.head?.all fun d => decide (d ∈ arms)) = true := by cases s <;> decide
  obtain ⟨more, hmore⟩ := (Symbol.longest?_eq_some_iff.1 hs).1
  cases hchars : s.chars with
  | nil =>
    have hlength := s.length_chars.1
    simp [hchars] at hlength
  | cons d rest =>
    rw [hchars, List.cons_append] at hmore
    obtain ⟨rfl, -⟩ := List.cons.inj hmore
    simpa [hchars] using harms

/-- **What starts with another character** is a number, a word or unknown. -/
theorem measure_of_not_mem_arms {c : Char} (h : c ∉ arms) (t : Text) :
    measure false c t =
      if c.isDigit then measureNumber c t
      else if isNameStart c then measureWord c t
      else (.unknown, 0) := by
  have hsymbol : measureSymbol c t = (.unknown, 0) := by
    rw [measureSymbol, longest?_of_not_mem_arms h]
  simp only [arms, List.mem_cons, List.not_mem_nil, or_false, not_or] at h
  simp [measure, isSpace, h, hsymbol]

/-- What starts with a point is a number if a digit follows. -/
theorem measure_dot (t : Text) :
    measure false '.' t =
      if t.head?.any Char.isDigit then measureNumber '.' t else measureSymbol '.' t := by
  have hname : isNameStart '.' = false := by decide +kernel
  simp [measure, isSpace, hname]

/-- What starts with a slash is a comment, or a symbol if neither a slash nor a star follows. -/
theorem measure_slash (atStart : Bool) (t : Text) :
    measure atStart '/' t =
      if t.head? = some '/' then (.lineComment, run (· != '\n') t)
      else if t.head? = some '*' then
        ((measureComment (t.drop 1)).1, (measureComment (t.drop 1)).2 + 1)
      else measureSymbol '/' t := by
  have hspace : isSpace '/' = false := by decide
  have hdigit : '/'.isDigit = false := by decide
  have hname : isNameStart '/' = false := by decide +kernel
  have hmark : '/' ≠ byteOrderMark := by decide
  have hnewline : '/' ≠ '\n' := by decide
  rw [measure, if_neg (fun h => hmark h.2), if_neg hnewline, if_neg (by simp [hspace])]
  simp only [true_and]
  split
  · rfl
  split
  · rfl
  simp [hdigit, hname]

/-! ### All lexemes -/

/-- **The lexemes of what follows `before` in a text.**  Only at the front of the text can the first
of them be a byte order mark. -/
def behind (before rest : Text) : List Lexeme :=
  if before = [] then cut rest else cutRest rest

@[simp]
theorem behind_nil (before : Text) : behind before [] = [] := by
  unfold behind
  split <;> rfl

/-- The first lexeme of what follows, and those behind it. -/
theorem behind_cons (before : Text) (c : Char) (t : Text) :
    behind before (c :: t) =
      ⟨(measure (decide (before = [])) c t).1, c :: t.take (measure (decide (before = [])) c t).2⟩ ::
        behind (before ++ c :: t.take (measure (decide (before = [])) c t).2)
          (t.drop (measure (decide (before = [])) c t).2) := by
  have hne (x : Text) : before ++ c :: x ≠ [] := by simp
  unfold behind
  rw [if_neg (hne _)]
  by_cases hbefore : before = []
  · rw [if_pos hbefore, decide_eq_true hbefore]
    exact cut_cons c t
  · rw [if_neg hbefore, decide_eq_false hbefore]
    exact cutRest_cons c t

/-- **A byte order mark is cut off first**, as a blank. -/
theorem cut_eq (t : Text) :
    cut t = if t.head? = some byteOrderMark then ⟨.whitespace, [byteOrderMark]⟩ :: cutRest t.tail
      else cutRest t := by
  cases t with
  | nil => rfl
  | cons c t =>
    split
    · rename_i hhead
      obtain rfl : c = byteOrderMark := by simpa using hhead
      have hmeasure : measure true byteOrderMark t = (.whitespace, 0) := if_pos ⟨rfl, rfl⟩
      rw [cut_cons, hmeasure]
      rfl
    · rename_i hhead
      have hc : c ≠ byteOrderMark := by simpa using hhead
      rw [cut_cons, cutRest_cons, measure_of_ne_mark hc true false]

/-- **What holds of every measured lexeme holds of every lexeme of a text**, and the lexemes make
up the text. -/
theorem of_mem_cutRest (t : Text) :
    (cutRest t).flatMap text = t ∧ ∀ lexeme ∈ cutRest t, lexeme.text ≠ [] ∧ lexeme.Proper := by
  -- what follows the first lexeme is shorter
  induction hn : t.length using Nat.strong_induction_on generalizing t with
  | _ n ih =>
    cases t with
    | nil => exact ⟨rfl, by simp [cutRest]⟩
    | cons c t =>
      have hlt : (t.drop (measure false c t).2).length < n := by
        simp only [List.length_drop, List.length_cons] at hn ⊢
        omega
      obtain ⟨htext, hproper⟩ := ih _ hlt (t.drop (measure false c t).2) rfl
      rw [cutRest_cons]
      constructor
      · rw [List.flatMap_cons, htext, List.cons_append, List.take_append_drop]
      · rw [List.forall_mem_cons]
        exact ⟨⟨by simp, proper_measure (.inl rfl) t⟩, hproper⟩

end GoTree.Token.Lexeme
