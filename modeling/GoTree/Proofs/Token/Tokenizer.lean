import GoTree.Proofs.Token.Kind

/-!
# All tokens of a text

Between two calls a scanner stands between two tokens of its text.  What it hands out then is the
lexeme that is measured where it stands, so its tokens are the lexemes of the text laid out one after
the other, and no call fails.

## Main definitions

* `Scanner.Awaits`: the tokens ahead of a scanner

## Main results

* `Scanner.Awaits.next?_nil`, `Scanner.Awaits.next?_cons`: what one call hands out
* `Scanner.tokens?_ofText`: every text is read to its end
* `Token.ofText_eq_place`: the tokens of a text are its lexemes
-/

namespace GoTree

open Token (Lexeme)

namespace Scanner

variable {s : Scanner} {tokens : List Token}

/-- **The tokens ahead of a scanner** that stands between two tokens.  At the front of the text a
byte order mark may follow. -/
def Awaits (s : Scanner) (tokens : List Token) : Prop :=
  ∃ before, s.Stands before [] ∧
    tokens = Token.place before.size (Lexeme.behind before s.rest)

theorem awaits_ofText (t : Text) : (ofText t).Awaits (Token.place 0 (Lexeme.cut t)) :=
  ⟨[], stands_ofText t, rfl⟩

/-- Behind the last token a call hands out the end of the text, and leaves the scanner as it is. -/
theorem Awaits.next?_nil (h : s.Awaits []) :
    s.next? = some (Token.endOfFile s.text.size, s) := by
  obtain ⟨before, hstands, hnil⟩ := h
  have hrest : s.rest = [] := by
    cases hrest : s.rest with
    | nil => rfl
    | cons c r =>
      rw [hrest, Lexeme.behind_cons] at hnil
      simp at hnil
  have htext : before = s.text := by
    rw [hstands.text_eq, hrest, List.append_nil, List.append_nil]
  have hbegin : s.begin = s := by
    have hleft : s.rest.size = s.tokenLeft := by
      rw [hstands.tokenLeft_eq, Text.size_nil, Nat.zero_add]
    rw [begin, hleft]
  have hkind : Scan.kind.run s = some (.endOfFile, s) := by
    simp [Scan.kind, hrest]
  have hslice := hstands.slice?_eq
  rw [List.append_nil, htext] at hslice
  rw [next?, hkind, Option.bind_some]
  dsimp only
  rw [hstands.range?_eq, List.append_nil, htext, Option.bind_some]
  dsimp only
  rw [hslice, Option.map_some, hbegin]
  rfl

/-- **One call** hands out the first token ahead, and the others are ahead of the scanner then. -/
theorem Awaits.next?_cons {token : Token} (h : s.Awaits (token :: tokens)) :
    ∃ n, s.next? = some (token, (s.read n).begin) ∧ (s.read n).begin.Awaits tokens ∧
      token.kind ≠ .endOfFile := by
  obtain ⟨before, hstands, hcons⟩ := h
  cases hrest : s.rest with
  | nil => simp [hrest] at hcons
  | cons c r =>
    have hkind := Scan.run_kind hstands hrest
    have hproper := Lexeme.measure_ne_endOfFile (decide (before = [])) c r
    rw [hrest, Lexeme.behind_cons, Token.place_cons, List.cons.injEq] at hcons
    obtain ⟨rfl, rfl⟩ := hcons
    generalize Lexeme.measure (decide (before = [])) c r = measured at hkind hproper ⊢
    obtain ⟨kind, n⟩ := measured
    -- the whole token is the first character and those measured behind it
    have hread : (s.read (n + 1)).Stands before (c :: r.take n) := by
      have hread := hstands.read (n + 1)
      rwa [List.nil_append, hrest, List.take_succ_cons] at hread
    refine ⟨n + 1, ?_, ⟨before ++ c :: r.take n, hread.begin, ?_⟩, hproper⟩
    · rw [next?, hkind, Option.bind_some]
      dsimp only
      rw [hread.range?_eq, Option.bind_some]
      dsimp only
      rw [hread.slice?_eq, Option.map_some]
    · have hrest' : (s.read (n + 1)).begin.rest = r.drop n := by
        show (s.read (n + 1)).rest = _
        rw [rest_read, hrest, List.drop_succ_cons]
      rw [hrest', Text.size_append]

/-- As many calls as there are tokens and one more give all of them. -/
theorem Awaits.tokens?_eq (h : s.Awaits tokens) {n : Nat} (hn : tokens.length < n) :
    s.tokens? n = some tokens := by
  induction n generalizing s tokens with
  | zero => exact absurd hn (Nat.not_lt_zero _)
  | succ n ih =>
    cases tokens with
    | nil =>
      rw [tokens?, h.next?_nil, Option.bind_some]
      exact if_pos rfl
    | cons token tokens =>
      obtain ⟨_, hnext, hahead, hkind⟩ := h.next?_cons
      rw [tokens?, hnext, Option.bind_some]
      dsimp only
      rw [if_neg hkind, ih hahead (Nat.lt_of_succ_lt_succ hn), Option.map_some]

end Scanner

/-- **Every text is read to its end:** no call fails, and there are no more tokens than characters. -/
theorem Scanner.tokens?_ofText (t : Text) :
    (ofText t).tokens? (t.length + 1) = some (Token.place 0 (Lexeme.cut t)) := by
  apply (awaits_ofText t).tokens?_eq
  rw [Token.length_place]
  exact Nat.lt_succ_of_le (Lexeme.length_cut_le t)

/-- **The tokens of a text are its lexemes**, laid out one after the other. -/
theorem Token.ofText_eq_place (t : Text) : ofText t = place 0 (Lexeme.cut t) := by
  rw [ofText, Scanner.tokens?_ofText, Option.getD_some]

end GoTree
