import GoTree.Proofs.Token.Stream

/-!
# What a scanner hands out

What a scanner has read, what it has read of the token under way and what is left make up its text.
So the lengths it keeps are always in order, its offsets are those of the text, and it hands out the
tokens of the text one after the other and then the end of the text.

## Main definitions

* `Scanner.Reached`: the scanners that are reached from the front of a text

## Main results

* `Scanner.Reached.stands`: where a reached scanner stands
* `Scanner.Awaits.pull?_eq`: what several calls hand out
* `Scanner.tiles_pull?`: the tokens of a text tile it, and a scanner hands them out
-/

namespace GoTree.Scanner

variable {s : Scanner} {t : Text} {tokens : List Token}

/-! ### All moments of reading -/

/-- **The scanners that are reached** from the front of a text, in whatever order characters are
read and tokens are started. -/
inductive Reached (t : Text) : Scanner → Prop
  | front : Reached t (ofText t)
  | advance {s : Scanner} : Reached t s → Reached t s.advance
  | begin {s : Scanner} : Reached t s → Reached t s.begin

theorem Reached.read (h : Reached t s) (n : Nat) : Reached t (s.read n) := by
  induction n generalizing s with
  | zero => exact h
  | succ n ih => exact ih h.advance

/-- What is read and what is left of a reached scanner make up the text. -/
theorem Reached.stands (h : Reached t s) : s.text = t ∧ ∃ before taken, s.Stands before taken := by
  induction h with
  | front => exact ⟨rfl, [], [], stands_ofText t⟩
  | advance _ ih =>
    obtain ⟨htext, before, taken, hstands⟩ := ih
    exact ⟨htext, before, _, hstands.advance⟩
  | begin _ ih =>
    obtain ⟨htext, before, taken, hstands⟩ := ih
    exact ⟨htext, _, [], hstands.begin⟩

/-! ### Several calls -/

/-- **Several calls** hand out the tokens ahead, and then the end of the text again and again. -/
theorem Awaits.pull?_eq (hreached : Reached t s) (h : s.Awaits tokens) (n : Nat) :
    ∃ s', Reached t s' ∧ s.pull? n = some (tokens.take n ++
      List.replicate (n - tokens.length) (Token.endOfFile s.text.size), s') := by
  induction n generalizing s tokens with
  | zero => exact ⟨s, hreached, by simp [pull?]⟩
  | succ n ih =>
    cases tokens with
    | nil =>
      obtain ⟨s', hreached', hpull⟩ := ih hreached h
      refine ⟨s', hreached', ?_⟩
      rw [pull?, h.next?_nil, Option.bind_some]
      dsimp only
      rw [hpull]
      simp [List.replicate_succ]
    | cons token tokens =>
      obtain ⟨k, hnext, hahead, -⟩ := h.next?_cons
      obtain ⟨s', hreached', hpull⟩ := ih (hreached.read k).begin hahead
      refine ⟨s', hreached', ?_⟩
      rw [pull?, hnext, Option.bind_some]
      dsimp only
      rw [hpull, begin, text_read]
      simp

/-- **The tokens of a text tile it, and a scanner hands them out.**  Every token has characters and
starts where the one before it stops, from the front of the text to its end, without cutting a
character.  As many calls as there are tokens give the tokens, and every call after them gives the
end of the text, which is no token of the text and has no characters.  At no moment are the lengths
that a scanner keeps out of order: its offsets are those between which it has read. -/
theorem tiles_pull? (t : Text) :
    Tiles t 0 (Token.ofText t) t.size ∧
    (∀ token ∈ Token.ofText t, token.start < token.stop ∧ t.IsBoundary token.start ∧
      t.IsBoundary token.stop ∧ token.kind ≠ .endOfFile) ∧
    (∀ n, ∃ s, Reached t s ∧ (ofText t).pull? n = some ((Token.ofText t).take n ++
      List.replicate (n - (Token.ofText t).length) (Token.endOfFile t.size), s)) ∧
    ∀ s, Reached t s → ∃ before taken, t = before ++ (taken ++ s.rest) ∧
      s.range? = some (before.size, (before ++ taken).size) := by
  refine ⟨Token.tiles_ofText t, ?_, ?_, ?_⟩
  · intro token htoken
    have hslice := (Token.tiles_ofText t).slice?_of_mem htoken
    obtain ⟨hstart, hstop⟩ := Text.isBoundary_of_slice? hslice
    have hpos := Text.size_pos (Token.ne_nil_of_mem_ofText htoken)
    refine ⟨?_, hstart, hstop, Token.kind_ne_endOfFile_of_mem_ofText htoken⟩
    unfold Token.stop
    omega
  · intro n
    have hawaits := awaits_ofText t
    rw [← Token.ofText_eq_place] at hawaits
    exact hawaits.pull?_eq .front n
  · intro s hs
    obtain ⟨htext, before, taken, hstands⟩ := hs.stands
    exact ⟨before, taken, htext ▸ hstands.text_eq, hstands.range?_eq⟩

/-- A text with a null character and a string that does not close behind a backslash. -/
theorem tiles_pull?_unclosed :
    (∃ s, Reached "\x00 \x22\\".toList s ∧ (ofText "\x00 \x22\\".toList).pull? 5 =
      some ([⟨.unknown, 0, ['\x00']⟩, ⟨.whitespace, 1, [' ']⟩, ⟨.unknown, 2, ['\x22', '\\']⟩,
        Token.endOfFile 4, Token.endOfFile 4], s)) ∧
    Text.IsBoundary "\x00 \x22\\".toList 2 ∧ Text.IsBoundary "\x00 \x22\\".toList 4 ∧
    ∃ before taken : Text, "\x00 \x22\\".toList = before ++ (taken ++ [' ', '\x22', '\\']) ∧
      (ofText "\x00 \x22\\".toList).advance.range? =
        some (before.size, (before ++ taken).size) := by
  have htext : Token.ofText "\x00 \x22\\".toList = [⟨.unknown, 0, ['\x00']⟩,
      ⟨.whitespace, 1, [' ']⟩, ⟨.unknown, 2, ['\x22', '\\']⟩] := by
    decide +kernel
  obtain ⟨-, htokens, hpull, hrange⟩ := tiles_pull? "\x00 \x22\\".toList
  rw [htext] at htokens hpull
  obtain ⟨-, hstart, hstop, -⟩ := htokens ⟨.unknown, 2, ['\x22', '\\']⟩ (by simp)
  exact ⟨hpull 5, hstart, hstop, hrange _ (.advance .front)⟩

end GoTree.Scanner
