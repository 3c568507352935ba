import GoTree.Proofs.Text.Bytes
import GoTree.Proofs.Token.Measure

/-!
# What readers of characters take in

A reader that only looks at what is left is described by a measure: what it finds, and how many
characters it reads.  A sequence of readers is measured by the sum, and a loop by any measure that
the turns make up, as long as each turn that goes on reads a character; so no loop is given up.

## Main definitions

* `Scanner.read`: reading several characters
* `Scanner.Stands`: where a scanner stands
* `Scan.Measures`: what a reader finds and takes in

## Main results

* `Scanner.Stands.range?_eq`, `Scanner.Stands.tokenText?_eq`: what is read of the token under way
* `Scan.Measures.bind`, `Scan.Measures.loop`: sequences and loops
* `Scan.measures_blockComment`, `Scan.measures_quoted`, `Scan.measures_rawString`,
  `Scan.measures_number`: comments and literals
-/

namespace GoTree

open Token

/-! ### Scanners that read on -/

namespace Scanner

/-- Reads up to `n` characters. -/
def read : (n : Nat) → Scanner → Scanner
  | 0, s => s
  | n + 1, s => read n s.advance

@[simp]
theorem read_zero (s : Scanner) : s.read 0 = s := rfl

@[simp]
theorem text_read (s : Scanner) (n : Nat) : (s.read n).text = s.text := by
  induction n generalizing s with
  | zero => rfl
  | succ n ih => exact ih s.advance

@[simp]
theorem rest_read (s : Scanner) (n : Nat) : (s.read n).rest = s.rest.drop n := by
  induction n generalizing s with
  | zero => rfl
  | succ n ih =>
    show (s.advance.read n).rest = _
    rw [ih, Scanner.advance, ← List.drop_one, List.drop_drop, Nat.add_comm]

theorem read_read (s : Scanner) (n m : Nat) : (s.read n).read m = s.read (n + m) := by
  induction n generalizing s with
  | zero => rw [read_zero, Nat.zero_add]
  | succ n ih =>
    rw [Nat.succ_add]
    exact ih s.advance

/-- At the end of the text nothing is read. -/
theorem read_of_rest_eq_nil {s : Scanner} (h : s.rest = []) (n : Nat) : s.read n = s := by
  have hadvance : s.advance = s := by rw [advance, h, List.tail_nil, ← h]
  induction n with
  | zero => rfl
  | succ n ih => rw [read, hadvance, ih]

theorem distance?_add (start width : Nat) : distance? start (start + width) = some width := by
  rw [distance?, if_pos (Nat.le_add_right ..), Nat.add_sub_cancel_left]

/-- **Where a scanner stands:** the token under way starts behind `before`, and `taken` is read of
it. -/
structure Stands (s : Scanner) (before taken : Text) : Prop where
  text_eq : s.text = before ++ (taken ++ s.rest)
  tokenLeft_eq : s.tokenLeft = taken.size + s.rest.size

theorem stands_ofText (t : Text) : (ofText t).Stands [] [] where
  text_eq := rfl
  tokenLeft_eq := (Nat.zero_add t.size).symm

namespace Stands

variable {s : Scanner} {before taken : Text}

/-- Reading a character takes it into the token under way. -/
theorem advance (h : s.Stands before taken) : s.advance.Stands before (taken ++ s.rest.take 1) where
  text_eq := by
    show s.text = before ++ (taken ++ s.rest.take 1 ++ s.rest.tail)
    rw [h.text_eq, List.append_assoc, ← List.drop_one, List.take_append_drop]
  tokenLeft_eq := by
    show s.tokenLeft = (taken ++ s.rest.take 1).size + Text.size s.rest.tail
    rw [h.tokenLeft_eq, Text.size_append, Nat.add_assoc, ← Text.size_append (s.rest.take 1),
      ← List.drop_one, List.take_append_drop]

theorem read (h : s.Stands before taken) (n : Nat) :
    (s.read n).Stands before (taken ++ s.rest.take n) := by
  induction n generalizing s taken with
  | zero => rwa [List.take_zero, List.append_nil]
  | succ n ih =>
    have hread := ih h.advance
    have htake : s.rest.take 1 ++ s.rest.tail.take n = s.rest.take (n + 1) := by
      rw [Nat.add_comm, List.take_add, List.drop_one]
    rwa [List.append_assoc, Scanner.advance, htake] at hread

/-- Starting a token leaves what was read behind. -/
theorem begin (h : s.Stands before taken) : s.begin.Stands (before ++ taken) [] where
  text_eq := by
    rw [List.nil_append, List.append_assoc]
    exact h.text_eq
  tokenLeft_eq := (Nat.zero_add s.rest.size).symm

theorem offset?_eq (h : s.Stands before taken) :
    s.offset? = some (before ++ taken).size := by
  have hsize : s.text.size = s.rest.size + (before ++ taken).size := by
    rw [h.text_eq, ← List.append_assoc, Text.size_append, Nat.add_comm]
  rw [offset?, hsize, distance?_add]

/-- **The offsets of a scanner** are those between which the token under way is read. -/
theorem range?_eq (h : s.Stands before taken) :
    s.range? = some (before.size, (before ++ taken).size) := by
  rw [range?, h.offset?_eq, Option.bind_some, h.tokenLeft_eq, Nat.add_comm taken.size, distance?_add,
    Option.bind_some, Text.size_append, Nat.add_comm before.size, distance?_add, Option.map_some]

theorem slice?_eq (h : s.Stands before taken) :
    s.text.slice? before.size (before ++ taken).size = some taken :=
  Text.slice?_eq_some_iff.2 ⟨before, s.rest, by rw [h.text_eq, List.append_assoc], rfl,
    (Text.size_append ..).symm⟩

/-- **The characters of the token under way** are those that are read of it. -/
theorem tokenText?_eq (h : s.Stands before taken) : s.tokenText? = some taken := by
  rw [tokenText?, h.range?_eq, Option.bind_some]
  exact h.slice?_eq

theorem run_tokenText (h : s.Stands before taken) : Scan.tokenText.run s = some (taken, s) := by
  simp [Scan.tokenText, h.tokenText?_eq]

theorem run_offset (h : s.Stands before taken) :
    Scan.offset.run s = some ((before ++ taken).size, s) := by
  simp [Scan.offset, h.offset?_eq]

end Stands

end Scanner

namespace Scan

variable {α β : Type}

/-! ### Looking at a character and reading it -/

@[simp]
theorem run_isAtEnd (s : Scanner) : isAtEnd.run s = some (s.rest.isEmpty, s) := rfl

@[simp]
theorem run_peek (s : Scanner) : peek.run s = some (s.rest.headD endMark, s) := rfl

@[simp]
theorem run_peekSecond (s : Scanner) :
    peekSecond.run s = some (s.rest.tail.headD endMark, s) := rfl

@[simp]
theorem run_advance (s : Scanner) : advance.run s = some (s.rest.headD endMark, s.read 1) := rfl

/-- **A character is eaten** if it is the next one; otherwise nothing is read. -/
@[simp]
theorem run_eat (c : Char) (s : Scanner) :
    (eat c).run s = if s.rest.head? = some c then some (true, s.read 1) else some (false, s) := by
  cases hrest : s.rest with
  | nil => simp [eat, hrest]
  | cons d t => by_cases hd : d = c <;> simp [eat, hrest, hd]

/-- A reader that has found something goes on from there. -/
theorem run_bind_of_run {x : Scan α} {f : α → Scan β} {s s' : Scanner} {a : α}
    (h : x.run s = some (a, s')) : (x >>= f).run s = (f a).run s' := by
  rw [StateT.run_bind, h]
  rfl

/-! ### Measures of readers -/

/-- **What a reader finds and takes in** is told by a measure of the characters that are left. -/
def Measures (x : Scan α) (g : Text → α × Nat) : Prop :=
  ∀ s, x.run s = some ((g s.rest).1, s.read (g s.rest).2)

theorem measures_pure (a : α) : Measures (pure a) fun _ => (a, 0) :=
  fun _ => rfl

theorem Measures.congr {x : Scan α} {g g' : Text → α × Nat} (h : Measures x g)
    (heq : ∀ t, g t = g' t) : Measures x g' :=
  (funext heq : g = g') ▸ h

/-- One reader after another. -/
theorem Measures.bind {x : Scan α} {f : α → Scan β} {g : Text → α × Nat}
    {k : α → Text → β × Nat} (hx : Measures x g) (hf : ∀ a, Measures (f a) (k a)) :
    Measures (x >>= f) fun t =>
      ((k (g t).1 (t.drop (g t).2)).1, (g t).2 + (k (g t).1 (t.drop (g t).2)).2) := by
  intro s
  rw [run_bind_of_run (hx s), hf, Scanner.rest_read, Scanner.read_read]

theorem Measures.ite {P : Prop} [Decidable P] {x y : Scan α} {g k : Text → α × Nat}
    (hx : Measures x g) (hy : Measures y k) :
    Measures (if P then x else y) fun t => if P then g t else k t := by
  split
  · exact hx
  · exact hy

/-! ### Loops -/

/-- A turn of a loop that goes on reads a character. -/
def Progresses (g : Text → Option α × Nat) : Prop :=
  ∀ t, (g t).1 = none → t ≠ [] ∧ 0 < (g t).2

/-- **A loop whose turns progress ends**, and it is measured by what its turns make up. -/
theorem Measures.loop {turn : Scan (Option α)} {g : Text → Option α × Nat} {k : Text → α × Nat}
    (hturn : Measures turn g) (hprogress : Progresses g)
    (hk : ∀ t, k t = match g t with
      | (some a, n) => (a, n)
      | (none, n) => ((k (t.drop n)).1, n + (k (t.drop n)).2)) :
    Measures (loop turn) k := by
  -- any number of turns above the number of characters suffices
  suffices hfrom : ∀ n s, s.rest.length < n →
      (loopFrom turn n).run s = some ((k s.rest).1, s.read (k s.rest).2) from
    fun s => hfrom _ s (Nat.lt_succ_self _)
  intro n
  induction n with
  | zero => exact fun s hs => absurd hs (Nat.not_lt_zero _)
  | succ n ih =>
    intro s hs
    rw [loopFrom, StateT.run_bind, hturn s, hk s.rest]
    cases hg : g s.rest with
    | mk found m =>
      cases found with
      | some a => rfl
      | none =>
        -- the turn has read, so less is left for those that follow
        obtain ⟨hne, hpos⟩ := hprogress s.rest (by rw [hg])
        rw [hg] at hpos
        have hlength := List.length_pos_iff.2 hne
        show (loopFrom turn n).run (s.read m) = _
        rw [ih, Scanner.rest_read, Scanner.read_read]
        rw [Scanner.rest_read, List.length_drop]
        omega

theorem measures_peek : Measures peek fun t => (t.headD endMark, 0) :=
  fun _ => rfl

/-- At the end of the text there is no character to read. -/
theorem measures_advance : Measures advance fun t => (t.headD endMark, (t.take 1).length) := by
  intro s
  cases hrest : s.rest with
  | nil => simp [hrest, Scanner.read_of_rest_eq_nil hrest]
  | cons c t => simp [hrest]

theorem measures_eat (c : Char) :
    Measures (eat c) fun t =>
      (decide (Lexeme.single (· == c) t ≠ 0), Lexeme.single (· == c) t) := by
  intro s
  rw [run_eat]
  cases hrest : s.rest with
  | nil => rfl
  | cons d t => by_cases hd : d = c <;> simp [Lexeme.single_cons, hd]

theorem measures_advanceTurn (p : Char → Bool) :
    Measures (advanceTurn p) (Lexeme.advanceTurn p) := by
  intro s
  cases hrest : s.rest with
  | nil => simp [advanceTurn, Lexeme.advanceTurn, hrest]
  | cons c t => by_cases hp : p c = true <;> simp [advanceTurn, Lexeme.advanceTurn, hrest, hp]

theorem progresses_advanceTurn (p : Char → Bool) : Progresses (Lexeme.advanceTurn p) := by
  intro t ht
  cases t with
  | nil => simp [Lexeme.advanceTurn] at ht
  | cons c t => by_cases hp : p c = true <;> simp [Lexeme.advanceTurn, hp] at ht ⊢

theorem measures_advanceWhile (p : Char → Bool) :
    Measures (advanceWhile p) fun t => ((), Lexeme.run p t) := by
  refine (measures_advanceTurn p).loop (progresses_advanceTurn p) fun t => ?_
  cases t with
  | nil => rfl
  | cons c t =>
    rw [Lexeme.run_cons]
    by_cases hp : p c = true <;> simp [Lexeme.advanceTurn, hp, Nat.add_comm]

/-! ### Comments and literals -/

theorem measures_commentTurn : Measures commentTurn Lexeme.commentTurn := by
  intro s
  cases hrest : s.rest with
  | nil => simp [commentTurn, Lexeme.commentTurn, hrest]
  | cons c t =>
    by_cases hc : c = '*'
    · by_cases hslash : t.head? = some '/' <;>
        simp [commentTurn, Lexeme.commentTurn, hrest, hc, hslash, Scanner.read_read]
    · simp [commentTurn, Lexeme.commentTurn, hrest, hc]

theorem progresses_commentTurn : Progresses Lexeme.commentTurn := by
  intro t ht
  cases t with
  | nil => simp [Lexeme.commentTurn] at ht
  | cons c t =>
    by_cases hclose : c = '*' ∧ t.head? = some '/' <;> simp [Lexeme.commentTurn, hclose] at ht ⊢

/-- **A block comment** reaches over any characters to its closing. -/
theorem measures_blockComment : Measures blockComment Lexeme.measureComment := by
  refine measures_commentTurn.loop progresses_commentTurn fun t => ?_
  cases t with
  | nil => rfl
  | cons c t =>
    rw [Lexeme.measureComment_cons, Lexeme.commentTurn]
    by_cases hclose : c = '*' ∧ t.head? = some '/' <;> simp [hclose, Nat.add_comm]

section Quoted

variable {quote : Char} {literal : Literal}

theorem measures_quotedTurn (hslash : quote ≠ '\\') (hfeed : quote ≠ '\n') (hend : quote ≠ endMark) :
    Measures (quotedTurn quote literal) (Lexeme.quotedTurn quote literal) := by
  have hne : endMark ≠ '\\' ∧ endMark ≠ '\n' := by decide
  intro s
  cases hrest : s.rest with
  | nil => simp [quotedTurn, Lexeme.quotedTurn, hrest, hend.symm, hne]
  | cons c t =>
    by_cases hquote : c = quote
    · simp [quotedTurn, Lexeme.quotedTurn, hrest, hquote]
    by_cases hescape : c = '\\'
    · cases t with
      | nil =>
        -- a backslash at the end of the text has no next character to take
        have hread : (s.read 1).read 1 = s.read 1 :=
          Scanner.read_of_rest_eq_nil (by simp [hrest]) 1
        simp [quotedTurn, Lexeme.quotedTurn, hrest, hescape, hslash.symm, hne, hread]
      | cons d t =>
        by_cases hd : d = '\n' <;>
          simp [quotedTurn, Lexeme.quotedTurn, hrest, hescape, hslash.symm, hd, Scanner.read_read]
    by_cases hnewline : c = '\n'
    · simp [quotedTurn, Lexeme.quotedTurn, hrest, hnewline, hfeed.symm]
    · simp [quotedTurn, Lexeme.quotedTurn, hrest, hquote, hescape, hnewline]

theorem progresses_quotedTurn : Progresses (Lexeme.quotedTurn quote literal) := by
  intro t ht
  cases t with
  | nil => simp [Lexeme.quotedTurn] at ht
  | cons c t =>
    refine ⟨List.cons_ne_nil c t, ?_⟩
    rw [Lexeme.quotedTurn] at ht ⊢
    split_ifs at ht ⊢ <;> simp at ht ⊢

/-- **A quoted literal** reaches to its closing quote, or over what stands before the end of its
line. -/
theorem measures_quoted (hslash : quote ≠ '\\') (hfeed : quote ≠ '\n') (hend : quote ≠ endMark) :
    Measures (quoted quote literal) (Lexeme.measureQuoted quote literal) := by
  refine (measures_quotedTurn hslash hfeed hend).loop progresses_quotedTurn fun t => ?_
  -- the measure is unfolded by one turn, which takes up to two characters
  cases t with
  | nil => rfl
  | cons c t =>
    by_cases hquote : c = quote
    · simp [Lexeme.quotedTurn, hquote, Lexeme.measureQuoted_quote]
    by_cases hnewline : c = '\n'
    · simp [Lexeme.quotedTurn, hnewline, hfeed.symm, Lexeme.measureQuoted_newline hfeed]
    by_cases hescape : c = '\\'
    · subst hescape
      cases t with
      | nil =>
        rw [Lexeme.measureQuoted_singleton hquote hnewline]
        simp [Lexeme.quotedTurn, hquote, Lexeme.measureQuoted_nil]
      | cons d t =>
        by_cases hd : d = '\n'
        · simp [Lexeme.quotedTurn, hd, hquote, Lexeme.measureQuoted_escape_newline hslash,
            Lexeme.measureQuoted_newline hfeed]
        · simp [Lexeme.quotedTurn, hd, hquote, Lexeme.measureQuoted_escape hslash, Nat.add_comm]
    · simp [Lexeme.quotedTurn, hquote, hnewline, hescape,
        Lexeme.measureQuoted_cons hquote hnewline hescape, Nat.add_comm]

end Quoted

/-- **A raw string** reaches to the next back quote. -/
theorem measures_rawString : Measures rawString Lexeme.measureRaw := by
  have hread := (measures_advanceWhile (· != '\x60')).bind fun _ =>
    (measures_eat '\x60').bind fun closes =>
      (measures_pure (Kind.literal .string)).ite (P := closes = true) (measures_pure .unknown)
  refine hread.congr fun t => ?_
  -- the run stops at a back quote just if it stops before the end
  simp only [Lexeme.measureRaw, Lexeme.single_beq, List.head?_drop, Lexeme.getElem?_run_ne]
  split <;> simp

/-! ### Numbers -/

theorem measures_digits (hex : Bool) :
    Measures (digits hex) fun t => ((), Lexeme.run (isDigitOrMark hex) t) :=
  measures_advanceWhile _

theorem measures_base (first : Char) :
    Measures (base first) fun t => (Lexeme.isHex first t, Lexeme.baseMark first t) := by
  intro s
  unfold base Lexeme.isHex Lexeme.baseMark
  by_cases hfirst : first = '0'
  · cases hrest : s.rest with
    | nil =>
      -- what stands for the end of the text is no base mark
      have hend : endMark ∉ ['x', 'X', 'b', 'B', 'o', 'O'] := by decide
      simp only [List.mem_cons, List.not_mem_nil, or_false, not_or] at hend
      simp [hfirst, hrest, hend]
    | cons c t =>
      by_cases hhex : c = 'x' ∨ c = 'X' <;>
        by_cases hmark : ((c = 'b' ∨ c = 'B') ∨ c = 'o') ∨ c = 'O' <;>
          simp [hfirst, hrest, hhex, hmark, Lexeme.single_cons]
  · simp [hfirst]

theorem measures_mantissa (first : Char) :
    Measures (mantissa first) fun t =>
      ((Lexeme.isHex first t, if first = '.' ∨ Lexeme.fractionOf (Lexeme.isHex first t) first
          (t.drop (Lexeme.wholeDigits (Lexeme.isHex first t) first t)) ≠ 0 then .float else .int),
        Lexeme.mantissa (Lexeme.isHex first t) first t) := by
  unfold mantissa
  by_cases hfirst : first = '.'
  · subst hfirst
    refine ((measures_digits false).bind fun _ => measures_pure (false, Literal.float)).congr
      fun t => ?_
    simp [Lexeme.isHex, Lexeme.mantissa, Lexeme.wholeDigits, Lexeme.baseMark, Lexeme.fractionOf]
  · rw [if_neg (by simpa using hfirst)]
    refine ((measures_base first).bind fun hex => (measures_digits hex).bind fun _ =>
      (measures_eat '.').bind fun point =>
        ((measures_digits hex).bind fun _ => measures_pure (hex, Literal.float)).ite
          (P := point = true) (measures_pure (hex, .int))).congr fun t => ?_
    simp only [Lexeme.mantissa, Lexeme.wholeDigits, Lexeme.fractionOf, if_neg hfirst, Lexeme.fraction]
    split_ifs <;> simp_all [Nat.add_assoc]

theorem measures_sign :
    Measures sign fun t => ((), Lexeme.single (fun c => c == '+' || c == '-') t) := by
  intro s
  cases hrest : s.rest with
  | nil => simp [sign, hrest]
  | cons c t =>
    by_cases hplus : c = '+' <;> by_cases hminus : c = '-' <;>
      simp [sign, hrest, hplus, hminus, Lexeme.single_cons]

theorem measures_exponent (hex : Bool) :
    Measures (exponent hex) fun t => (decide (Lexeme.exponent hex t ≠ 0), Lexeme.exponent hex t) := by
  have hread := measures_peek.bind fun c =>
    (measures_advance.bind fun _ => measures_sign.bind fun _ => (measures_digits false).bind fun _ =>
      measures_pure true).ite (P := isPower hex c = true) (measures_pure false)
  refine hread.congr fun t => ?_
  cases t with
  | nil =>
    -- what stands for the end of the text opens no exponent
    have hend : isPower hex endMark = false := by cases hex <;> decide
    simp [hend, Lexeme.exponent]
  | cons c t =>
    by_cases hpower : isPower hex c = true
    · simp [hpower, Lexeme.exponent, Lexeme.single_cons, Lexeme.signedMark, Nat.add_comm 1,
        Nat.add_right_comm _ 1]
    · simp [hpower, Lexeme.exponent, Lexeme.single_cons]

theorem measures_number (first : Char) : Measures (number first) (Lexeme.measureNumber first) := by
  have hread := (measures_mantissa first).bind fun found => (measures_exponent found.1).bind
    fun power => (measures_eat 'i').bind fun unit => measures_pure
      (Kind.literal (if unit = true then .imaginary else if power = true then .float else found.2))
  refine hread.congr fun t => ?_
  simp only [Lexeme.measureNumber, Lexeme.scaled, List.drop_drop, Nat.add_zero, Nat.add_assoc,
    decide_eq_true_eq, ne_eq, Prod.mk.injEq, and_true, Kind.literal.injEq]
  split_ifs <;> simp_all

end Scan

end GoTree
