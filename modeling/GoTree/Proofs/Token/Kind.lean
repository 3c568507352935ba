import GoTree.Proofs.Token.Lexeme
import GoTree.Proofs.Token.Scan

/-!
# The kind of the next token

The arms of the tokenizer are read one after the other, and each takes in what is measured of a
lexeme that starts with its character.  An arm for symbols tries the characters with which a symbol
can go on.  A symbol is given only where none of those that go on from it can follow, as the
characters with which they do were all tried before; so it is the longest one that fits.

## Main definitions

* `Scan.ReadsLongest`: readers that give the longest symbol

## Main results

* `Scan.readsLongest_pure`, `Scan.ReadsLongest.eat`: symbols, and trying a character
* `Scan.run_kindFrom`: the kind of a token that starts with a character
* `Scan.run_kind`: the kind of the next token
-/

namespace GoTree

open Token

namespace Scan

/-! ### Symbols -/

/-- **A reader gives the longest symbol** where `read` is read of it already and none of the
characters `tried` comes next. -/
def ReadsLongest (read tried : List Char) (x : Scan Kind) : Prop :=
  ∀ s : Scanner, (∀ c ∈ tried, s.rest.head? ≠ some c) →
    ∃ symbol n, Symbol.longest? (read ++ s.rest) = some symbol ∧
      symbol.chars.length = read.length + n ∧ x.run s = some (.symbol symbol, s.read n)

/-- A symbol that is spelled as what is read, and from which others go on with tried characters
only. -/
def Closed (symbol : Symbol) (read tried : List Char) : Prop :=
  symbol.chars = read ∧
    ∀ longer ∈ symbol.extensions, longer.chars[read.length]? ∈ tried.map some

instance (symbol : Symbol) (read tried : List Char) : Decidable (Closed symbol read tried) :=
  inferInstanceAs (Decidable (_ ∧ _))

/-- **A closed symbol is the longest one.** -/
theorem readsLongest_pure {read tried : List Char} {symbol : Symbol}
    (h : Closed symbol read tried) : ReadsLongest read tried (pure (.symbol symbol)) := by
  obtain ⟨rfl, hextensions⟩ := h
  intro s htried
  refine ⟨symbol, 0, ?_, rfl, rfl⟩
  refine Symbol.longest?_of_extensions (List.prefix_append ..) fun longer hlonger hfits => ?_
  obtain ⟨c, hc, hnext⟩ := List.mem_map.1 (hextensions longer hlonger)
  obtain ⟨more, hmore⟩ := hfits
  -- the longer symbol goes on with the next character, which was tried
  have hhead : (symbol.chars ++ s.rest)[symbol.chars.length]? = some c := by
    rw [← hmore, List.getElem?_append_left (List.getElem?_eq_some_iff.1 hnext.symm).1, ← hnext]
  rw [List.getElem?_append_right (Nat.le_refl _), Nat.sub_self, ← List.head?_eq_getElem?] at hhead
  exact htried c hc hhead

/-- **Trying a character:** either it is read, or it is one more that does not come next. -/
theorem ReadsLongest.eat {read tried : List Char} {c : Char} {x y : Scan Kind}
    (hx : ReadsLongest (read ++ [c]) [] x) (hy : ReadsLongest read (c :: tried) y) :
    ReadsLongest read tried (do if ← eat c then x else y) := by
  intro s htried
  rw [StateT.run_bind, run_eat]
  by_cases hc : s.rest.head? = some c
  · obtain ⟨rest, hrest⟩ := List.head?_eq_some_iff.1 hc
    obtain ⟨symbol, n, hlongest, hlength, hrun⟩ := hx (s.read 1) (by simp)
    rw [Scanner.rest_read, hrest, List.append_assoc] at hlongest
    rw [Scanner.read_read] at hrun
    rw [List.length_append] at hlength
    refine ⟨symbol, 1 + n, by rw [hrest]; exact hlongest, ?_, ?_⟩
    · rw [hlength, Nat.add_assoc]
      rfl
    · rw [if_pos hc]
      exact hrun
  · rw [if_neg hc]
    refine hy s fun d hd => ?_
    rcases List.mem_cons.1 hd with rfl | hd
    · exact hc
    · exact htried d hd

theorem readsLongest_withEqual {read tried : List Char} {plain assigned : Symbol}
    (hplain : Closed plain read ('=' :: tried)) (hassigned : Closed assigned (read ++ ['=']) []) :
    ReadsLongest read tried (withEqual plain assigned) :=
  (readsLongest_pure hassigned).eat (readsLongest_pure hplain)

/-- **Two more points make an ellipsis.** -/
theorem readsLongest_dot : ReadsLongest ['.'] [] (do
    if (← peek) == '.' && (← peekSecond) == '.' then
      let _ ← advance
      let _ ← advance
      pure (.symbol .ellipsis)
    else pure (.symbol .dot)) := by
  intro s _
  by_cases hpoints : ['.', '.'] <+: s.rest
  · obtain ⟨rest, hrest⟩ := hpoints
    refine ⟨.ellipsis, 2, ?_, rfl, by simp [peekSecond, ← hrest, Scanner.read_read]⟩
    rw [← hrest]
    have hnone : Symbol.extensions .ellipsis = [] := by decide
    exact Symbol.longest?_of_extensions (List.prefix_append ['.', '.', '.'] rest) (by simp [hnone])
  · -- the end of the text looks like a character that is no point
    have hcond : ¬(s.rest.headD endMark = '.' ∧ s.rest.tail.headD endMark = '.') := by
      have hend : endMark ≠ '.' := by decide
      match hrest : s.rest with
      | [] => simp [hend]
      | [_] => simp [hend]
      | c :: d :: rest => simpa [hrest, eq_comm] using hpoints
    have hone : Symbol.extensions .dot = [.ellipsis] := by decide
    refine ⟨.dot, 0, ?_, rfl, ?_⟩
    · refine Symbol.longest?_of_extensions (List.prefix_append ['.'] s.rest) ?_
      rw [hone, List.forall_mem_singleton]
      exact fun hfits => hpoints ((List.prefix_append_right_inj ['.']).1 hfits)
    · rw [run_bind_of_run (run_peek s), run_bind_of_run (run_peekSecond s),
        if_neg (by simpa using hcond)]
      rfl

/-! ### Arms -/

/-- A reader that gives the longest symbol takes in what is measured of a symbol. -/
theorem ReadsLongest.run_eq {c : Char} {tried : List Char} {x : Scan Kind}
    (hx : ReadsLongest [c] tried x) {s : Scanner} (htried : ∀ d ∈ tried, s.rest.head? ≠ some d) :
    x.run s =
      some ((Lexeme.measureSymbol c s.rest).1, s.read (Lexeme.measureSymbol c s.rest).2) := by
  obtain ⟨symbol, n, hlongest, hlength, hrun⟩ := hx s htried
  rw [Lexeme.measureSymbol, ← List.singleton_append, hlongest, hrun]
  dsimp only
  rw [hlength, List.length_singleton, Nat.add_sub_cancel_left]

/-- The arm of a character that starts nothing but symbols. -/
theorem ReadsLongest.measures {c : Char} {x : Scan Kind} (hx : ReadsLongest [c] [] x)
    (hc : Lexeme.StartsSymbol c) : Measures x (Lexeme.measure false c) := by
  intro s
  rw [hx.run_eq (by simp), Lexeme.measure_of_startsSymbol hc]

/-- The arm of a slash: comments before symbols. -/
theorem measures_slash : Measures (do
    if ← eat '/' then
      advanceWhile (· != '\n')
      pure .lineComment
    else if ← eat '*' then blockComment
    else withEqual .slash .slashAssign) (Lexeme.measure false '/') := by
  have hline := (measures_advanceWhile (· != '\n')).bind fun _ => measures_pure Kind.lineComment
  have hsymbol : ReadsLongest ['/'] [] (withEqual .slash .slashAssign) :=
    readsLongest_withEqual (by decide) (by decide)
  intro s
  rw [Lexeme.measure_slash]
  -- a comment of either kind is measured behind its second character
  by_cases hslash : s.rest.head? = some '/'
  · obtain ⟨rest, hrest⟩ := List.head?_eq_some_iff.1 hslash
    rw [if_pos hslash, run_bind_of_run (by rw [run_eat, if_pos hslash])]
    refine (hline (s.read 1)).trans ?_
    simp [hrest, Scanner.read_read, Lexeme.run_cons, Nat.add_comm 1]
  rw [if_neg hslash, run_bind_of_run (by rw [run_eat, if_neg hslash]), if_neg Bool.false_ne_true]
  by_cases hstar : s.rest.head? = some '*'
  · obtain ⟨rest, hrest⟩ := List.head?_eq_some_iff.1 hstar
    rw [if_pos hstar, run_bind_of_run (by rw [run_eat, if_pos hstar])]
    refine (measures_blockComment (s.read 1)).trans ?_
    simp [hrest, Scanner.read_read, Nat.add_comm 1]
  · rw [if_neg hstar, run_bind_of_run (by rw [run_eat, if_neg hstar]), if_neg Bool.false_ne_true]
    exact hsymbol.run_eq (by simp)

/-- The arm of a point: numbers before symbols. -/
theorem measures_dot : Measures (do
    if (← peek).isDigit then number '.'
    else if (← peek) == '.' && (← peekSecond) == '.' then
      let _ ← advance
      let _ ← advance
      pure (.symbol .ellipsis)
    else pure (.symbol .dot)) (Lexeme.measure false '.') := by
  intro s
  have hhead : (s.rest.headD endMark).isDigit = s.rest.head?.any Char.isDigit := by
    cases s.rest <;> rfl
  rw [Lexeme.measure_dot, run_bind_of_run (run_peek s), hhead]
  split
  · exact measures_number '.' s
  · exact readsLongest_dot.run_eq (by simp)

/-- The arm of a character that starts names: the token under way is the word. -/
theorem run_word {s : Scanner} {before : Text} {c : Char} (h : s.Stands before [c]) :
    word.run s = some ((Lexeme.measureWord c s.rest).1, s.read (Lexeme.measureWord c s.rest).2) := by
  have htext := (h.read (Lexeme.run isNamePart s.rest)).run_tokenText
  rw [word, run_bind_of_run (measures_advanceWhile isNamePart s), run_bind_of_run htext,
    List.singleton_append, Lexeme.measureWord]
  cases Keyword.ofSpelling?
    (String.ofList (c :: s.rest.take (Lexeme.run isNamePart s.rest))) <;> rfl

/-- **The kind of a token that starts with a character** is the one that is measured. -/
theorem run_kindFrom {s : Scanner} {before : Text} {c : Char} (h : s.Stands before [c]) :
    (kindFrom c).run s =
      some ((Lexeme.measure false c s.rest).1, s.read (Lexeme.measure false c s.rest).2) := by
  have hspaces := (measures_advanceWhile isSpace).bind fun _ => measures_pure Kind.whitespace
  unfold kindFrom
  split
  -- line feeds and blanks
  case h_1 => rfl
  case h_2 | h_3 | h_4 => exact hspaces s
  case h_5 => exact measures_slash s
  -- brackets, commas and semicolons, with which no other symbol goes on
  case h_6 | h_7 | h_8 | h_9 | h_10 | h_11 | h_12 | h_13 =>
    refine (readsLongest_pure ?_).measures ?_ s <;> decide +kernel
  case h_14 => exact measures_dot s
  -- symbols that only an equals sign makes longer
  case h_15 | h_18 | h_19 | h_22 | h_25 | h_26 =>
    refine (readsLongest_withEqual ?_ ?_).measures ?_ s <;> decide +kernel
  -- symbols that may also be written twice
  case h_16 | h_17 | h_21 =>
    refine ((readsLongest_pure ?_).eat (readsLongest_withEqual ?_ ?_)).measures ?_ s <;>
      decide +kernel
  -- an ampersand, and both angles
  case h_20 =>
    refine ((readsLongest_pure ?_).eat ((readsLongest_withEqual ?_ ?_).eat
      (readsLongest_withEqual ?_ ?_))).measures ?_ s <;> decide +kernel
  case h_23 =>
    refine ((readsLongest_withEqual ?_ ?_).eat ((readsLongest_pure ?_).eat
      (readsLongest_withEqual ?_ ?_))).measures ?_ s <;> decide +kernel
  case h_24 =>
    refine ((readsLongest_withEqual ?_ ?_).eat (readsLongest_withEqual ?_ ?_)).measures ?_ s <;>
      decide +kernel
  -- quoted literals and raw strings
  case h_27 | h_29 => exact measures_quoted (by decide) (by decide) (by decide) s
  case h_28 => exact measures_rawString s
  -- a character that has no arm of its own
  case h_30 =>
    have harms : c ∉ Lexeme.arms := by simp_all [Lexeme.arms]
    rw [Lexeme.measure_of_not_mem_arms harms]
    split
    · exact measures_number c s
    split
    · exact run_word h
    · rfl

/-! ### The next token -/

/-- A byte order mark is told from a stray character by the offset behind it. -/
theorem run_isLeadingMark {s : Scanner} {before : Text} {c : Char} (h : s.Stands before [c]) :
    (isLeadingMark c).run s = some (decide (before = [] ∧ c = byteOrderMark), s) := by
  unfold isLeadingMark
  by_cases hmark : c = byteOrderMark
  · subst hmark
    have hstart : ((before ++ [byteOrderMark]).size == byteOrderMark.utf8Size) =
        decide (before = []) := by
      rw [Bool.eq_iff_iff, beq_iff_eq, decide_eq_true_iff, Text.size_append, ← Text.size_eq_zero]
      show before.size + byteOrderMark.utf8Size = byteOrderMark.utf8Size ↔ before.size = 0
      omega
    rw [if_pos (beq_self_eq_true _), run_bind_of_run h.run_offset, hstart]
    simp
  · rw [if_neg (by simpa using hmark)]
    simp [hmark]

/-- **The kind of the next token** is the one that is measured where it starts. -/
theorem run_kind {s : Scanner} {before : Text} {c : Char} {t : Text} (h : s.Stands before [])
    (hrest : s.rest = c :: t) :
    kind.run s = some ((Lexeme.measure (decide (before = [])) c t).1,
      s.read ((Lexeme.measure (decide (before = [])) c t).2 + 1)) := by
  have hread : (s.read 1).Stands before [c] := by
    have hread := h.read 1
    rwa [hrest] at hread
  have hrest' : (s.read 1).rest = t := by rw [Scanner.rest_read, hrest]; rfl
  have hkind := run_kindFrom hread
  rw [hrest', Scanner.read_read, Nat.add_comm] at hkind
  have hnotEnd : s.rest.isEmpty = false := by rw [hrest]; rfl
  rw [kind, run_bind_of_run (run_isAtEnd s), hnotEnd, if_neg Bool.false_ne_true,
    run_bind_of_run (run_advance s), hrest, List.headD_cons,
    run_bind_of_run (run_isLeadingMark hread)]
  -- elsewhere in the text the mark is measured like any other character
  by_cases hmark : before = [] ∧ c = byteOrderMark
  · rw [decide_eq_true hmark, if_pos rfl, Lexeme.measure, if_pos (by simpa using hmark)]
    rfl
  · rw [decide_eq_false hmark, if_neg Bool.false_ne_true, hkind]
    by_cases hbefore : before = []
    · rw [Lexeme.measure_of_ne_mark (fun hc => hmark ⟨hbefore, hc⟩) false]
    · rw [decide_eq_false hbefore]

end Scan

end GoTree
