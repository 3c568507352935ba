import GoTree.Proofs.Grammar.Procedure
import GoTree.Proofs.Mapping.Document
import GoTree.Proofs.Token.Stream
import Mathlib.Logic.Relation

/-!
# Progress

Reading a text ends, and not because of a bound.  Over any rest of the tokens of a text every rule
that reads a construct takes a token, so does every round of every loop, and a rule that is called
again before it has come back finds fewer tokens left.  No rule goes past the end of the text.

The calls are those of the rules without a bound: a rule calls another one at a state if its result
depends on what the other one reads there.

## Main definitions

* `ParserState.Over`: the states of reading a text
* `Grammar.Calls`: which rule calls which, and where
* `Grammar.Progress`: progress from one state

## Main results

* `Grammar.lt_of_calls`: a rule calls rules with fewer tokens left, or of a lower rank
* `Grammar.left_lt_of_cycle`: a rule that is called again has fewer tokens left
* `parse_progress`: reading a text makes progress, and ends
-/

namespace GoTree

open GoTree.Parser

variable {t : Text} {s s' : ParserState}

/-! ### States over a text -/

namespace ParserState

/-- **A state of reading a text:** what is left is a rest of its tokens, the end of the text
included. -/
structure Over (t : Text) (s : ParserState) : Prop where
  suffix : s.tokens <:+ (TokenStream.ofText t).tokens
  nonempty : s.tokens ≠ []

/-- The end of the text is always left. -/
theorem Over.exists_eq_append (hs : s.Over t) :
    ∃ init, s.tokens = init ++ [.endOfFile t.size] := by
  obtain ⟨⟨before, hbefore⟩, hne⟩ := hs
  obtain ⟨init, hinit, -⟩ := Token.exists_significant_eq_append t.size false
    fun token (htoken : token ∈ Token.body t) => Token.kind_ne_endOfFile_of_mem_body htoken
  rw [TokenStream.tokens_eq, hinit] at hbefore
  rcases List.eq_nil_or_concat s.tokens with hnil | ⟨rest, last, hlast⟩
  · exact absurd hnil hne
  · rw [List.concat_eq_append] at hlast
    rw [hlast, ← List.append_assoc] at hbefore
    exact ⟨rest, by rw [hlast, List.append_inj_right' hbefore rfl]⟩

theorem over_ofText (t : Text) : (ofText t).Over t where
  suffix := List.suffix_refl _
  nonempty := by
    obtain ⟨init, hinit, -⟩ := Token.exists_significant_eq_append t.size false
      fun token (htoken : token ∈ Token.body t) => Token.kind_ne_endOfFile_of_mem_body htoken
    rw [ofText, TokenStream.tokens_eq, hinit]
    simp

/-- **Reading never takes the end of the text.** -/
theorem Reaches.over (h : s.Reaches s') (hs : s.Over t) : s'.Over t := by
  obtain ⟨-, taken, htokens, hkinds⟩ := h
  refine ⟨(htokens ▸ List.suffix_append taken s'.tokens).trans hs.suffix, fun hnil => ?_⟩
  obtain ⟨init, hinit⟩ := hs.exists_eq_append
  have hmem : Token.endOfFile t.size ∈ taken := by
    rw [hnil, List.append_nil] at htokens
    simp [← htokens, hinit]
  exact hkinds _ hmem rfl

end ParserState

/-! ### Calls -/

namespace Grammar

/-- **A rule calls another one** where its result depends on what the other one reads. -/
def Calls (caller callee : Rule × ParserState) : Prop :=
  ∃ g : Grammar, (∀ rule s, (rule, s) ≠ callee → g rule s = total rule s) ∧
    body g caller.1 caller.2 ≠ body total caller.1 caller.2

variable {caller callee : Rule × ParserState}

/-- A call takes less than its caller. -/
theorem measure_lt_of_calls (h : Calls caller callee) :
    callee.1.measure callee.2 < caller.1.measure caller.2 := by
  obtain ⟨g, hg, hne⟩ := h
  -- a callee that takes as much as its caller would make no difference to it
  refine Nat.lt_of_not_le fun hle => hne ?_
  have hagree : AgreeBelow (caller.1.measure caller.2) (run (caller.1.measure caller.2)) g := by
    intro rule s hs
    have hother : (rule, s) ≠ callee := by
      rintro rfl
      exact absurd hs (Nat.not_lt.2 hle)
    rw [hg rule s hother, total_eq_run hs]
  calc body g caller.1 caller.2
      = body (run (caller.1.measure caller.2)) caller.1 caller.2 :=
        body_eq_of_agreeBelow (Nat.le_refl _) hagree
    _ = total caller.1 caller.2 := rfl
    _ = body total caller.1 caller.2 := by rw [body_total]

/-- **A rule calls rules with fewer tokens left**, or with as many a rule of a lower rank. -/
theorem lt_of_calls (h : Calls caller callee) :
    callee.2.left < caller.2.left ∨
      callee.2.left = caller.2.left ∧ callee.1.rank < caller.1.rank := by
  have hlt := measure_lt_of_calls h
  have hcaller := caller.1.rank_lt
  unfold Rule.measure at hlt
  omega

/-- Calls inside calls never go on for ever. -/
theorem wellFounded_calls : WellFounded fun callee caller => Calls caller callee :=
  Subrelation.wf measure_lt_of_calls
    (measure fun call : Rule × ParserState => call.1.measure call.2).wf

/-- **A rule called again** before it has come back finds fewer tokens left. -/
theorem left_lt_of_cycle (h : Relation.TransGen Calls caller callee)
    (hrank : caller.1.rank ≤ callee.1.rank) : callee.2.left < caller.2.left := by
  -- the measure falls along the calls, and not by the rank
  have hlt : callee.1.measure callee.2 < caller.1.measure caller.2 := by
    clear hrank
    induction h with
    | single h => exact measure_lt_of_calls h
    | tail _ h ih => exact Nat.lt_trans (measure_lt_of_calls h) ih
  unfold Rule.measure at hlt
  omega

/-! ### Progress -/

/-- **Progress from a state** over a text. -/
structure Progress (t : Text) (s : ParserState) : Prop where
  /-- No rule goes past the end of the text. -/
  cursor : ∀ {α : Type} (p : Procedure α), (p.reader total s).2.Over t
  /-- A rule that reads a construct takes a token. -/
  node : ∀ {α : Type} (p : Procedure α) (a : α), (p.reader total s).1 = .ok a → p.Node s a →
    (p.reader total s).2.left < s.left
  /-- A round of a loop takes a token. -/
  round : ∀ {α : Type} (l : Loop α) (a : α), l.stops (current s).kind = false →
    (l.round total s).1 = .ok a → l.goesOn a → (l.round total s).2.left < s.left
  /-- A rule is called with fewer tokens left, or with as many from a rule of a higher rank. -/
  call : ∀ (rule : Rule) (callee : Rule × ParserState), Calls (rule, s) callee →
    callee.2.left < s.left ∨ callee.2.left = s.left ∧ callee.1.rank < rule.rank
  /-- A rule called again has fewer tokens left. -/
  cycle : ∀ (rule : Rule) (callee : Rule × ParserState),
    Relation.TransGen Calls (rule, s) callee → rule.rank ≤ callee.1.rank →
      callee.2.left < s.left
  /-- No rule fails because of a bound. -/
  unbounded : ∀ {α : Type} (p : Procedure α) (e : SyntaxError),
    (p.reader total s).1 = .error e → e.cause ≠ .exhausted
  /-- A bound linear in the number of tokens changes nothing. -/
  linear : ∀ {α : Type} (p : Procedure α) (n : Nat), 4 * s.left + 4 ≤ n →
    p.reader (run n) s = p.reader total s

theorem progress (hs : s.Over t) : Progress t s := by
  have hrule {α : Type} (p : Procedure α) := p.steady (steadyBelow_self _) (ready_all s)
  exact {
    cursor := fun p => (hrule p).reaches.over hs
    node := fun p a ha => (hrule p).ok a ha
    round := fun l a hstop ha =>
      (l.steady (steadyBelow_self _) (ready_all s) hstop).ok a ha
    call := fun rule callee h => lt_of_calls h
    cycle := fun rule callee h => left_lt_of_cycle h
    unbounded := fun p => (hrule p).error
    linear := fun p n hn => (p.steady (steadyBelow_total .all hn) (ready_all s)).same.symm }

end Grammar

/-- **Reading a text makes progress, and ends.**  From every state over the text every rule that
reads a construct, every round of every loop and every cycle of calls takes a token, and the end of
the text is never taken; calls inside calls never go on for ever, so that the rules without a bound
are the only solution of their equations; and reading the text never meets its bound. -/
theorem parse_progress (t : Text) :
    (∀ s : ParserState, s.Over t → Grammar.Progress t s) ∧
    (WellFounded fun callee caller => Grammar.Calls caller callee) ∧
    (∀ g : Grammar, Grammar.body g = g ↔ g = Grammar.total) ∧
    ∀ e, parse t = .error e → e.cause ≠ .exhausted := by
  refine ⟨fun s hs => Grammar.progress hs, Grammar.wellFounded_calls, fun g => ⟨?_, ?_⟩,
    fun e he => not_exhausted_of_parse he⟩
  · exact Grammar.eq_total
  · rintro rfl
    exact Grammar.body_total

/-- A function with a call in it, read in full: fewer tokens are left. -/
theorem parse_progress_call :
    (ParserState.ofText "package p\nfunc f() { g(1) }\n".toList).Over
      "package p\nfunc f() { g(1) }\n".toList ∧
    ∃ file, (Grammar.total.file (ParserState.ofText "package p\nfunc f() { g(1) }\n".toList)).1 =
        .ok file ∧ file.2.2.length = 1 ∧
      (Grammar.total.file (ParserState.ofText "package p\nfunc f() { g(1) }\n".toList)).2.left <
        (ParserState.ofText "package p\nfunc f() { g(1) }\n".toList).left := by
  have hover := ParserState.over_ofText "package p\nfunc f() { g(1) }\n".toList
  obtain ⟨file, hfile, hlength⟩ :
      ∃ file, (Grammar.total.file (ParserState.ofText "package p\nfunc f() { g(1) }\n".toList)).1 =
        .ok file ∧ (file.2.2.length == 1) = true := by
    refine exists_ok_and_of_any ?_
    decide +kernel
  have hprogress := (parse_progress "package p\nfunc f() { g(1) }\n".toList).1 _ hover
  exact ⟨hover, file, hfile, by simpa using hlength, hprogress.node .file file hfile trivial⟩

end GoTree
