import GoTree.Proofs.Token.Symbol
import GoTree.Token.Tokenizer

/-!
# Measuring lexemes

What a scanner reads one character after the other is measured here in one go: the kind of the lexeme
at the front of a text, and how many characters it takes.  The lexemes of a text follow one another
without anything between them, and a symbol is the longest one that fits.

## Main definitions

* `Lexeme`: a kind and the characters of that kind
* `Lexeme.measure`: the kind of the lexeme at the front of a text, and how many characters follow
  its first one
* `Lexeme.cut`: all lexemes of a text
* `Token.place`: lexemes laid out one after the other

## Main results

* `Lexeme.cut_cons`: the lexemes of a text are the first one and the lexemes of the rest
-/

namespace GoTree

namespace Token

/-- A stretch of text and what it is. -/
structure Lexeme where
  kind : Kind
  text : Text
deriving DecidableEq, Repr

namespace Lexeme

/-! ### Counting characters -/

/-- How many leading characters satisfy `p`. -/
def run (p : Char → Bool) (t : Text) : Nat :=
  (t.takeWhile p).length

/-- One when the first character satisfies `p`, zero otherwise. -/
def single (p : Char → Bool) (t : Text) : Nat :=
  run p (t.take 1)

theorem run_cons (p : Char → Bool) (c : Char) (t : Text) :
    run p (c :: t) = if p c then run p t + 1 else 0 := by
  unfold run
  rw [List.takeWhile_cons]
  split <;> rfl

theorem run_le (p : Char → Bool) (t : Text) : run p t ≤ t.length :=
  (List.takeWhile_prefix p).length_le

@[simp]
theorem single_nil (p : Char → Bool) : single p [] = 0 := rfl

theorem single_cons (p : Char → Bool) (c : Char) (t : Text) :
    single p (c :: t) = if p c then 1 else 0 := by
  unfold single
  rw [List.take_succ_cons, List.take_zero, run_cons]
  rfl

/-! ### Comments and literals -/

/-- One turn of reading on. -/
def advanceTurn (p : Char → Bool) : Text → Option Unit × Nat
  | [] => (some (), 0)
  | c :: _ => if p c then (none, 1) else (some (), 0)

/-- One turn of a block comment. -/
def commentTurn : Text → Option Kind × Nat
  | [] => (some .unknown, 0)
  | c :: t => if c = '*' ∧ t.head? = some '/' then (some .blockComment, 2) else (none, 1)

/-- One turn of a quoted literal. -/
def quotedTurn (quote : Char) (literal : Literal) : Text → Option Kind × Nat
  | [] => (some .unknown, 0)
  | c :: t =>
    if c = quote then (some (.literal literal), 1)
    else if c = '\n' then (some .unknown, 0)
    else if c = '\\' ∧ t ≠ [] ∧ t.head? ≠ some '\n' then (none, 2)
    else (none, 1)

/-- A block comment behind its opening, or an unknown lexeme up to the end of the text when it does
not close. -/
def measureComment : Text → Kind × Nat
  | [] => (.unknown, 0)
  | c :: t =>
    if c = '*' ∧ t.head? = some '/' then (.blockComment, 2)
    else ((measureComment t).1, (measureComment t).2 + 1)

/-- **The body of a quoted literal** after its opening quote: whether it closes, and how many
characters belong to it.  A backslash takes the next character with it, and a line feed is never
part of the literal. -/
def untilQuote (quote : Char) : Text → Bool × Nat
  | [] => (false, 0)
  | [c] => if c = quote then (true, 1) else if c = '\n' then (false, 0) else (false, 1)
  | c :: d :: t =>
    if c = quote then (true, 1)
    else if c = '\n' then (false, 0)
    else if c = '\\' then
      if d = '\n' then (false, 1) else
        let (closed, n) := untilQuote quote t
        (closed, n + 2)
    else
      let (closed, n) := untilQuote quote (d :: t)
      (closed, n + 1)

/-- A quoted literal, or an unknown lexeme when it does not close. -/
def measureQuoted (quote : Char) (literal : Literal) (t : Text) : Kind × Nat :=
  let (closed, n) := untilQuote quote t
  (if closed then .literal literal else .unknown, n)

/-- A raw string reaches to the next back quote, over any characters. -/
def measureRaw (t : Text) : Kind × Nat :=
  let n := run (· != '\x60') t
  if n < t.length then (.literal .string, n + 1) else (.unknown, n)

theorem single_beq (c : Char) (t : Text) :
    single (· == c) t = if t.head? = some c then 1 else 0 := by
  cases t with
  | nil => rfl
  | cons d t => simp [single_cons]

/-- Reading on up to a character stops at it, unless there is none. -/
theorem getElem?_run_ne (c : Char) (t : Text) :
    t[run (· != c) t]? = some c ↔ run (· != c) t < t.length := by
  induction t with
  | nil => simp
  | cons d t ih => by_cases hd : d = c <;> simp [run_cons, hd, ih]

section Quoted

variable {quote : Char} {l : Literal}

theorem measureQuoted_nil : measureQuoted quote l [] = (.unknown, 0) := rfl

theorem measureQuoted_quote (t : Text) :
    measureQuoted quote l (quote :: t) = (.literal l, 1) := by
  cases t <;> simp [measureQuoted, untilQuote]

theorem measureQuoted_newline (hquote : quote ≠ '\n') (t : Text) :
    measureQuoted quote l ('\n' :: t) = (.unknown, 0) := by
  cases t <;> simp [measureQuoted, untilQuote, hquote.symm]

theorem measureQuoted_singleton {c : Char} (hquote : c ≠ quote) (hfeed : c ≠ '\n') :
    measureQuoted quote l [c] = (.unknown, 1) := by
  simp [measureQuoted, untilQuote, hquote, hfeed]

theorem measureQuoted_cons {c : Char} (hquote : c ≠ quote) (hfeed : c ≠ '\n') (hslash : c ≠ '\\')
    (t : Text) :
    measureQuoted quote l (c :: t) =
      ((measureQuoted quote l t).1, (measureQuoted quote l t).2 + 1) := by
  cases t with
  | nil => simp [measureQuoted, untilQuote, hquote, hfeed]
  | cons d t => simp [measureQuoted, untilQuote, hquote, hfeed, hslash]

theorem measureQuoted_escape {d : Char} (hquote : quote ≠ '\\') (hfeed : d ≠ '\n') (t : Text) :
    measureQuoted quote l ('\\' :: d :: t) =
      ((measureQuoted quote l t).1, (measureQuoted quote l t).2 + 2) := by
  simp [measureQuoted, untilQuote, hquote.symm, hfeed]

theorem measureQuoted_escape_newline (hquote : quote ≠ '\\') (t : Text) :
    measureQuoted quote l ('\\' :: '\n' :: t) = (.unknown, 1) := by
  simp [measureQuoted, untilQuote, hquote.symm]

end Quoted

theorem measureRaw_cons (c : Char) (t : Text) :
    measureRaw (c :: t) = if c = '\x60' then (.literal .string, 1)
      else ((measureRaw t).1, (measureRaw t).2 + 1) := by
  unfold measureRaw
  rw [run_cons]
  by_cases hc : c = '\x60'
  · simp [hc]
  · simp only [bne_iff_ne, ne_eq, hc, not_false_eq_true, if_true, List.length_cons,
      Nat.add_lt_add_iff_right, if_false]
    split <;> rfl

theorem measureComment_cons (c : Char) (t : Text) :
    measureComment (c :: t) =
      if c = '*' ∧ t.head? = some '/' then (.blockComment, 2)
      else ((measureComment t).1, (measureComment t).2 + 1) := rfl

/-- A comment closes, or it is unknown. -/
theorem measureComment_kind (t : Text) :
    (measureComment t).1 = .blockComment ∨ (measureComment t).1 = .unknown := by
  induction t with
  | nil => exact .inr rfl
  | cons c t ih =>
    rw [measureComment_cons]
    split
    · exact .inl rfl
    · exact ih

/-! ### Numbers -/

/-- The mark of an exponent and its sign. -/
def signedMark (hex : Bool) (t : Text) : Nat :=
  single (isPower hex) t + single (fun c => c == '+' || c == '-') (t.drop (single (isPower hex) t))

/-- The exponent of a number: its mark, an optional sign, and digits. -/
def exponent (hex : Bool) (t : Text) : Nat :=
  if single (isPower hex) t = 0 then 0
  else signedMark hex t + run (isDigitOrMark false) (t.drop (signedMark hex t))

/-- The fraction of a number: a point and digits. -/
def fraction (hex : Bool) (t : Text) : Nat :=
  if single (· == '.') t = 0 then 0
  else single (· == '.') t + run (isDigitOrMark hex) (t.drop (single (· == '.') t))

/-- Whether a number that starts with `c` is hexadecimal. -/
def isHex (c : Char) (t : Text) : Bool :=
  c == '0' && single (fun d => d == 'x' || d == 'X') t == 1

/-- The base mark of a number that starts with `c`. -/
def baseMark (c : Char) (t : Text) : Nat :=
  if c = '0' then
    single (fun d => d == 'x' || d == 'X' || d == 'b' || d == 'B' || d == 'o' || d == 'O') t else 0

/-- The base mark and the digits before the point. -/
def wholeDigits (hex : Bool) (c : Char) (t : Text) : Nat :=
  baseMark c t + run (isDigitOrMark hex) (t.drop (baseMark c t))

/-- The fraction, unless the number starts with its point. -/
def fractionOf (hex : Bool) (c : Char) (t : Text) : Nat :=
  if c = '.' then 0 else fraction hex t

/-- The number up to its exponent. -/
def mantissa (hex : Bool) (c : Char) (t : Text) : Nat :=
  wholeDigits hex c t + fractionOf hex c (t.drop (wholeDigits hex c t))

/-- The number up to its imaginary unit. -/
def scaled (hex : Bool) (c : Char) (t : Text) : Nat :=
  mantissa hex c t + exponent hex (t.drop (mantissa hex c t))

/-- **A number** that starts with the character `c`, a digit or a point: an optional base mark after
a zero, digits, a fraction unless the number starts with its point, an exponent and the imaginary
unit. -/
def measureNumber (c : Char) (t : Text) : Kind × Nat :=
  let hex := isHex c t
  let unit := single (· == 'i') (t.drop (scaled hex c t))
  let literal : Literal :=
    if unit ≠ 0 then .imaginary
    else if c = '.' ∨ fractionOf hex c (t.drop (wholeDigits hex c t)) ≠ 0 ∨
        exponent hex (t.drop (mantissa hex c t)) ≠ 0 then .float
    else .int
  (.literal literal, scaled hex c t + unit)

/-- A number of a given base. -/
theorem measureNumber_eq {hex : Bool} {c : Char} {t : Text} (h : isHex c t = hex) :
    measureNumber c t =
      (.literal (if single (· == 'i') (t.drop (scaled hex c t)) ≠ 0 then .imaginary
        else if c = '.' ∨ fractionOf hex c (t.drop (wholeDigits hex c t)) ≠ 0 ∨
          exponent hex (t.drop (mantissa hex c t)) ≠ 0 then .float
        else .int),
      scaled hex c t + single (· == 'i') (t.drop (scaled hex c t))) := by
  subst h
  rfl

/-! ### Words and symbols -/

/-- A name, or the keyword with its spelling. -/
def measureWord (c : Char) (t : Text) : Kind × Nat :=
  let n := run isNamePart t
  match Keyword.ofSpelling? (String.ofList (c :: t.take n)) with
  | some keyword => (.keyword keyword, n)
  | none => (.name, n)

/-- The longest symbol, or a single unknown character. -/
def measureSymbol (c : Char) (t : Text) : Kind × Nat :=
  match Symbol.longest? (c :: t) with
  | some s => (.symbol s, s.chars.length - 1)
  | none => (.unknown, 0)

/-! ### Lexemes -/

/-- **The lexeme at the front of `c :: t`:** its kind, and how many characters of `t` it takes after
`c`.  `atStart` says whether `c` is the first character of the whole text. -/
def measure (atStart : Bool) (c : Char) (t : Text) : Kind × Nat :=
  if atStart ∧ c = byteOrderMark then (.whitespace, 0)
  else if c = '\n' then (.newline, 0)
  else if isSpace c then (.whitespace, run isSpace t)
  else if c = '/' ∧ t.head? = some '/' then (.lineComment, run (· != '\n') t)
  else if c = '/' ∧ t.head? = some '*' then
    let (kind, n) := measureComment (t.drop 1)
    (kind, n + 1)
  else if c.isDigit ∨ (c = '.' ∧ t.head?.any Char.isDigit) then measureNumber c t
  else if c = '\x22' then measureQuoted '\x22' .string t
  else if c = '\x27' then measureQuoted '\x27' .char t
  else if c = '\x60' then measureRaw t
  else if isNameStart c then measureWord c t
  else measureSymbol c t

/-! ### Cutting a text -/

/-- The first `fuel` lexemes of a text. -/
def cutFrom : (fuel : Nat) → (atStart : Bool) → Text → List Lexeme
  | 0, _, _ => []
  | _ + 1, _, [] => []
  | fuel + 1, atStart, c :: t =>
    let (kind, n) := measure atStart c t
    ⟨kind, c :: t.take n⟩ :: cutFrom fuel false (t.drop n)

/-- **All lexemes of a text.**  Every lexeme has at least one character, so there are no more
lexemes than characters. -/
def cut (t : Text) : List Lexeme :=
  cutFrom t.length true t

@[simp]
theorem cutFrom_nil (fuel : Nat) (atStart : Bool) : cutFrom fuel atStart [] = [] := by
  cases fuel <;> rfl

/-- Any two fuels that suffice give the same lexemes. -/
theorem cutFrom_congr {n m : Nat} {atStart : Bool} {t : Text} (hn : t.length ≤ n)
    (hm : t.length ≤ m) : cutFrom n atStart t = cutFrom m atStart t := by
  induction n generalizing m atStart t with
  | zero =>
    obtain rfl : t = [] := List.eq_nil_of_length_eq_zero (Nat.le_zero.1 hn)
    simp
  | succ n ih =>
    cases t with
    | nil => simp
    | cons c t =>
      cases m with
      | zero => simp at hm
      | succ m =>
        simp only [List.length_cons, Nat.add_le_add_iff_right] at hn hm
        simp only [cutFrom]
        rw [ih (m := m)]
        · simp only [List.length_drop]; omega
        · simp only [List.length_drop]; omega

theorem length_cutFrom_le (fuel : Nat) (atStart : Bool) (t : Text) :
    (cutFrom fuel atStart t).length ≤ fuel := by
  induction fuel generalizing atStart t with
  | zero => exact Nat.le_refl 0
  | succ fuel ih =>
    cases t with
    | nil => exact Nat.zero_le _
    | cons c t => exact Nat.succ_le_succ (ih _ _)

@[simp]
theorem cut_nil : cut [] = [] := rfl

/-- There are no more lexemes than characters. -/
theorem length_cut_le (t : Text) : (cut t).length ≤ t.length :=
  length_cutFrom_le _ _ _

/-- The lexemes of a rest of a text, which no longer starts the text. -/
def cutRest (t : Text) : List Lexeme :=
  cutFrom t.length false t

/-- **The lexemes of a text are the first one and the lexemes of what follows it.** -/
theorem cut_cons (c : Char) (t : Text) :
    cut (c :: t) =
      ⟨(measure true c t).1, c :: t.take (measure true c t).2⟩ ::
        cutRest (t.drop (measure true c t).2) := by
  simp only [cut, cutRest, List.length_cons, cutFrom]
  rw [cutFrom_congr (m := (t.drop (measure true c t).2).length)]
  · simp only [List.length_drop]; omega
  · exact Nat.le_refl _

theorem cutRest_cons (c : Char) (t : Text) :
    cutRest (c :: t) =
      ⟨(measure false c t).1, c :: t.take (measure false c t).2⟩ ::
        cutRest (t.drop (measure false c t).2) := by
  simp only [cutRest, List.length_cons, cutFrom]
  rw [cutFrom_congr (m := (t.drop (measure false c t).2).length)]
  · simp only [List.length_drop]; omega
  · exact Nat.le_refl _

end Lexeme

/-- Lays lexemes out one after the other, from `offset` on. -/
def place : (offset : Nat) → List Lexeme → List Token
  | _, [] => []
  | offset, lexeme :: rest =>
    ⟨lexeme.kind, offset, lexeme.text⟩ :: place (offset + lexeme.text.size) rest

@[simp]
theorem place_nil (offset : Nat) : place offset [] = [] := rfl

@[simp]
theorem place_cons (offset : Nat) (lexeme : Lexeme) (rest : List Lexeme) :
    place offset (lexeme :: rest) =
      ⟨lexeme.kind, offset, lexeme.text⟩ :: place (offset + lexeme.text.size) rest := rfl

@[simp]
theorem length_place (offset : Nat) (lexemes : List Lexeme) :
    (place offset lexemes).length = lexemes.length := by
  induction lexemes generalizing offset with
  | nil => rfl
  | cons lexeme rest ih => rw [place_cons, List.length_cons, ih, List.length_cons]

end Token

end GoTree
