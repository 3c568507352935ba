import Mathlib.Tactic.Common
import GoTree.Proofs.Grammar.Delimits

/-!
# What readers take

A specification of a reader says, for every success, which tokens were taken off the front of the
stream and what the result has to do with them; and for every failure, what the error points at.
Most errors are about the next token.  A few are about a construct that was read before, so that the
tokens before a reader can matter to its errors.  The rules below follow the way readers are put
together, so the specification of a grammar rule is read off its definition.

## Main definitions

* `SyntaxError.PointsAt`: what a syntax error is about
* `Parser.ReadsAfter`, `Parser.Reads`: what a reader takes and returns whenever it succeeds, and what
  its errors are about
* `Parser.Each`, `Parser.Separated`: items one after the other, and with commas between them

## Main results

* `Parser.ReadsAfter.bind`, `Parser.Reads.bind`: readers one after the other
* `Parser.reads_untilKind`, `Parser.reads_commaList`, `Parser.reads_extend`: the three loops
-/

namespace GoTree

/-- The causes that are about a construct that was read, and not about the next token. -/
def Cause.isAboutConstruct : Cause → Bool
  | .notCalled _ | .switchOnStatement | .extraRangeVariable | .mixedParameters => true
  | _ => false

/-- **What a syntax error is about:** the next token, or some of the tokens taken.  A bound that was
met is about nothing. -/
def SyntaxError.PointsAt (e : SyntaxError) (taken : List Token) (next : Token) : Prop :=
  e.cause = .exhausted ∨ (e.start = next.start ∧ e.stop = next.stop) ∨
    (e.cause.isAboutConstruct = true ∧ Located taken e.start e.stop)

/-- What an error is about is among more tokens, too. -/
theorem SyntaxError.PointsAt.append_left {e : SyntaxError} {taken : List Token} {next : Token}
    (h : e.PointsAt taken next) (front : List Token) : e.PointsAt (front ++ taken) next :=
  h.imp_right fun h => h.imp_right (And.imp_right fun hlocated => hlocated.append_left front)

namespace Parser

variable {α β : Type} {before : List Token} {s : ParserState} {p : Parser α}
  {Q : α → List Token → Prop}

/-- **What a reader takes** after some other tokens.  Whenever it succeeds at `s`, it has taken some
tokens off the front, and `Q` holds of the result and these tokens.  When it fails, the error is about
the next token or about some of the tokens taken or before. -/
structure ReadsAfter (before : List Token) (s : ParserState) (p : Parser α)
    (Q : α → List Token → Prop) : Prop where
  ok : ∀ a s', p s = (.ok a, s') → ∃ taken, s.tokens = taken ++ s'.tokens ∧ Q a taken
  error : ∀ e s', p s = (.error e, s') →
    ∃ taken, s.tokens = taken ++ s'.tokens ∧ e.PointsAt (before ++ taken) (current s')

/-- **What a reader takes**, with no errors about what was taken before. -/
abbrev Reads (s : ParserState) (p : Parser α) (Q : α → List Token → Prop) : Prop :=
  ReadsAfter [] s p Q

namespace ReadsAfter

theorem pure {a : α} (h : Q a []) : ReadsAfter before s (pure a) Q where
  ok := by
    intro b s' hrun
    obtain ⟨rfl, rfl⟩ : a = b ∧ s = s' := by simpa using hrun
    exact ⟨[], rfl, h⟩
  error := by simp

theorem mono {R : α → List Token → Prop} (h : ReadsAfter before s p Q)
    (hR : ∀ a taken, Q a taken → R a taken) : ReadsAfter before s p R where
  ok := by
    intro a s' hrun
    obtain ⟨taken, htokens, hQ⟩ := h.ok a s' hrun
    exact ⟨taken, htokens, hR a taken hQ⟩
  error := h.error

/-- Readers that run the same. -/
theorem of_eq {q : Parser α} (h : ReadsAfter before s q Q) (hrun : p s = q s) :
    ReadsAfter before s p Q where
  ok := by
    rw [hrun]
    exact h.ok
  error := by
    rw [hrun]
    exact h.error

/-- Errors may always be about what was taken before. -/
theorem after (h : Reads s p Q) : ReadsAfter before s p Q where
  ok := h.ok
  error := by
    intro e s' hrun
    obtain ⟨taken, htokens, he⟩ := h.error e s' hrun
    exact ⟨taken, htokens, he.append_left before⟩

/-- **One reader after the other** takes the tokens of both. -/
theorem bind {f : α → Parser β} {R : β → List Token → Prop} (hp : ReadsAfter before s p Q)
    (hf : ∀ a s' taken, Q a taken →
      ReadsAfter (before ++ taken) s' (f a) fun b more => R b (taken ++ more)) :
    ReadsAfter before s (p >>= f) R where
  ok := by
    intro b s₂ hrun
    obtain ⟨a, s₁, hp₁, hf₂⟩ := bind_eq_ok_iff.1 hrun
    obtain ⟨taken, htokens, hQ⟩ := hp.ok a s₁ hp₁
    obtain ⟨more, htokens', hR⟩ := (hf a s₁ taken hQ).ok b s₂ hf₂
    exact ⟨taken ++ more, by rw [htokens, htokens', List.append_assoc], hR⟩
  error := by
    intro e s₂ hrun
    rw [bind_apply] at hrun
    split at hrun
    · rename_i a s₁ hp₁
      obtain ⟨taken, htokens, hQ⟩ := hp.ok a s₁ hp₁
      -- an error of the second reader may be about what the first one has taken
      obtain ⟨more, htokens', he⟩ := (hf a s₁ taken hQ).error e s₂ hrun
      rw [List.append_assoc] at he
      exact ⟨taken ++ more, by rw [htokens, htokens', List.append_assoc], he⟩
    · rename_i e' s₁ hp₁
      obtain ⟨rfl, rfl⟩ : e' = e ∧ s₁ = s₂ := by simpa using hrun
      exact hp.error e' s₁ hp₁

end ReadsAfter

namespace Reads

/-- One reader after another whose errors are not about what the first has taken. -/
theorem bind {f : α → Parser β} {R : β → List Token → Prop} (hp : Reads s p Q)
    (hf : ∀ a s' taken, Q a taken → Reads s' (f a) fun b more => R b (taken ++ more)) :
    Reads s (p >>= f) R :=
  ReadsAfter.bind hp fun a s' taken hQ => (hf a s' taken hQ).after

theorem map {f : α → β} {R : β → List Token → Prop} (hp : Reads s p Q)
    (hf : ∀ a taken, Q a taken → R (f a) taken) : Reads s (f <$> p) R := by
  have hbind : Reads s (p >>= fun a => Pure.pure (f a)) R := by
    refine hp.bind fun a s' taken hQ => .pure ?_
    rw [List.append_nil]
    exact hf a taken hQ
  exact hbind

end Reads

/-! ### Errors -/

/-- Stopping at once with an error. -/
theorem ReadsAfter.of_error {e : SyntaxError} (hrun : p s = (.error e, s))
    (he : e.PointsAt before (current s)) : ReadsAfter before s p Q where
  ok := by simp [hrun]
  error := by
    intro e' s' hrun'
    obtain ⟨rfl, rfl⟩ : e = e' ∧ s = s' := by simpa using hrun.symm.trans hrun'
    exact ⟨[], rfl, by rwa [List.append_nil]⟩

theorem reads_fail (cause : Cause) : Reads s (fail cause : Parser α) Q :=
  .of_error rfl (.inr (.inl ⟨rfl, rfl⟩))

theorem reads_failExpected (what : Expectation) : Reads s (failExpected what : Parser α) Q :=
  .of_error rfl (.inr (.inl ⟨rfl, rfl⟩))

theorem reads_exhausted : Reads s (exhausted : Parser α) Q :=
  .of_error rfl (.inl rfl)

/-- **An error about a construct** that was read before. -/
theorem reads_failAt {cause : Cause} {start stop : Nat} (hcause : cause.isAboutConstruct = true)
    (h : Located before start stop) : ReadsAfter before s (failAt cause start stop : Parser α) Q :=
  .of_error rfl (.inr (.inr ⟨hcause, h⟩))

/-! ### Looking ahead -/

theorem reads_peek {f : Token → Parser α} (h : Reads s (f (current s)) Q) :
    Reads s (peek >>= f) Q :=
  h.of_eq rfl

theorem reads_peekKind {f : Token.Kind → Parser α} (h : Reads s (f (current s).kind) Q) :
    Reads s (peekKind >>= f) Q :=
  h.of_eq rfl

/-- The token after the next decides only how reading goes on. -/
theorem reads_peekSecond {f : Token.Kind → Parser α} (h : ∀ kind, Reads s (f kind) Q) :
    Reads s (peekSecond >>= f) Q := by
  obtain ⟨kind, hpeek⟩ : ∃ kind, peekSecond s = (.ok kind, s) := by
    unfold peekSecond
    split
    · exact ⟨_, rfl⟩
    · exact ⟨_, rfl⟩
  exact (h kind).of_eq (by rw [bind_apply, hpeek])

theorem reads_level {f : Int → Parser α} (h : ∀ level, Reads s (f level) Q) :
    Reads s (level >>= f) Q :=
  (h s.level).of_eq rfl

theorem reads_isAt {kind : Token.Kind} {f : Bool → Parser α}
    (hat : (current s).kind = kind → Reads s (f true) Q)
    (hnot : (current s).kind ≠ kind → Reads s (f false) Q) : Reads s (isAt kind >>= f) Q := by
  have hrun : (isAt kind >>= f) s = f ((current s).kind == kind) s := rfl
  by_cases hkind : (current s).kind = kind
  · rw [beq_iff_eq.2 hkind] at hrun
    exact (hat hkind).of_eq hrun
  · rw [beq_eq_false_iff_ne.2 hkind] at hrun
    exact (hnot hkind).of_eq hrun

/-! ### Taking tokens -/

/-- Only the end of the text stays. -/
theorem reads_next {kind : Token.Kind} (hkind : (current s).kind = kind)
    (hne : kind ≠ .endOfFile) :
    Reads s next fun token taken => token = current s ∧ taken = [token] ∧ token.kind = kind := by
  obtain ⟨tokens, level⟩ := s
  cases tokens with
  | nil => exact absurd hkind hne.symm
  | cons first rest =>
    have hrun : next ⟨first :: rest, level⟩ = (.ok first, ⟨rest, level⟩) :=
      if_neg fun hend => hne (hkind.symm.trans hend)
    refine ⟨?_, by simp [hrun]⟩
    intro token s' htoken
    obtain ⟨rfl, rfl⟩ : first = token ∧ (⟨rest, level⟩ : ParserState) = s' := by
      simpa [hrun] using htoken
    exact ⟨[first], rfl, rfl, rfl, hkind⟩

theorem reads_nextPos {kind : Token.Kind} (hkind : (current s).kind = kind)
    (hne : kind ≠ .endOfFile) :
    Reads s nextPos fun pos taken => ∃ token, taken = [token] ∧ token.kind = kind ∧
      pos = token.start := by
  refine (reads_next hkind hne).bind fun token s' taken h => .pure ?_
  exact ⟨token, by rw [h.2.1, List.append_nil], h.2.2, rfl⟩

theorem reads_expect {kind : Token.Kind} (hne : kind ≠ .endOfFile) :
    Reads s (expect kind) fun pos taken => ∃ token, taken = [token] ∧ token.kind = kind ∧
      pos = token.start :=
  reads_isAt (fun hkind => reads_nextPos hkind hne) fun _ => reads_failExpected _

/-- A token is taken if it is of the kind. -/
theorem reads_eat {kind : Token.Kind} (hne : kind ≠ .endOfFile) {f : Bool → Parser α}
    (hat : ∀ token s', token.kind = kind → Reads s' (f true) fun a more => Q a (token :: more))
    (hnot : (current s).kind ≠ kind → Reads s (f false) Q) : Reads s (eat kind >>= f) Q := by
  have hassoc : (eat kind >>= f) s = (isAt kind >>= fun b =>
      (if b = true then (next >>= fun _ => pure true) else pure false) >>= f) s := rfl
  have hreads : Reads s (isAt kind >>= fun b =>
      (if b = true then (next >>= fun _ => pure true) else pure false) >>= f) Q := by
    refine reads_isAt (fun hkind => ?_) fun hkind => ?_
    · have htake : Reads s (next >>= fun _ => pure true) fun b taken =>
          b = true ∧ ∃ token, taken = [token] ∧ token.kind = kind := by
        refine (reads_next hkind hne).bind fun token s' taken h => .pure ⟨rfl, token, ?_⟩
        exact ⟨by rw [h.2.1, List.append_nil], h.2.2⟩
      refine htake.bind ?_
      rintro b s' _ ⟨rfl, token, rfl, hkind'⟩
      exact hat token s' hkind'
    · exact hnot hkind
  exact hreads.of_eq hassoc

/-- The end of a statement takes a semicolon or nothing. -/
theorem reads_endStatement :
    Reads s endStatement fun _ taken =>
      taken = [] ∨ ∃ token, taken = [token] ∧ token.kind = .symbol .semicolon := by
  refine reads_peekKind ?_
  split
  · rename_i hkind
    refine (reads_next hkind (by simp)).bind fun token s' taken h => .pure (.inr ⟨token, ?_⟩)
    exact ⟨by rw [h.2.1, List.append_nil], h.2.2⟩
  · exact .pure (.inl rfl)
  · exact .pure (.inl rfl)
  · exact .pure (.inl rfl)
  · exact reads_failExpected _

/-! ### The expression level -/

theorem reads_withLevel {enter : Int → Int} {leave : Int → Int → Int} (h : ∀ s', Reads s' p Q) :
    Reads s (withLevel enter leave p) Q where
  ok := by
    intro a s' hrun
    obtain ⟨ha, rfl⟩ := Prod.mk.inj hrun
    have hok := (h { s with level := enter s.level }).ok a _ (Prod.ext ha rfl)
    exact hok
  error := by
    intro e s' hrun
    obtain ⟨he, rfl⟩ := Prod.mk.inj hrun
    have herror := (h { s with level := enter s.level }).error e _ (Prod.ext he rfl)
    exact herror

theorem reads_nested (h : ∀ s', Reads s' p Q) : Reads s (nested p) Q :=
  reads_withLevel h

theorem reads_header (h : ∀ s', Reads s' p Q) : Reads s (header p) Q :=
  reads_withLevel h

/-! ### Loops -/

theorem reads_bounded {f : Nat → Parser α} (h : ∀ n, Reads s (f n) Q) : Reads s (bounded f) Q :=
  (h _).of_eq rfl

/-- Items taken one after the other. -/
inductive Each (Q : α → List Token → Prop) : List α → List Token → Prop
  | nil : Each Q [] []
  | cons {a : α} {list : List α} {taken more : List Token} (head : Q a taken)
      (tail : Each Q list more) : Each Q (a :: list) (taken ++ more)

/-- **Items until a kind** are taken one after the other. -/
theorem reads_untilKind {stop : Token.Kind → Bool}
    (h : ∀ s, stop (current s).kind = false → Reads s p Q) :
    Reads s (untilKind stop p) (Each Q) := by
  refine reads_bounded fun n => ?_
  induction n generalizing s with
  | zero => exact reads_exhausted
  | succ n ih =>
    refine reads_peekKind ?_
    split
    · exact .pure .nil
    · rename_i hstop
      refine (h s (by simpa using hstop)).bind fun a s' taken hQ => ?_
      refine ih.bind fun list s'' more hrest => .pure ?_
      rw [List.append_nil]
      exact .cons hQ hrest

/-- After such items stands a token of a kind that stops them. -/
theorem stop_of_untilKind {stop : Token.Kind → Bool} {list : List α} {s' : ParserState}
    (h : untilKind stop p s = (.ok list, s')) : stop (current s').kind = true := by
  have hfrom (n : Nat) : ∀ s list, untilKindFrom stop p n s = (.ok list, s') →
      stop (current s').kind = true := by
    induction n with
    | zero =>
      intro s list hrun
      simp [untilKindFrom, exhausted, failAt] at hrun
    | succ n ih =>
      intro s list hrun
      obtain ⟨kind, s₁, hpeek, hrest⟩ := bind_eq_ok_iff.1 hrun
      obtain ⟨rfl, rfl⟩ : (current s).kind = kind ∧ s = s₁ := by simpa [peekKind] using hpeek
      split at hrest
      · rename_i hstop
        obtain ⟨-, rfl⟩ : list = [] ∧ s = s' := by simpa [eq_comm] using hrest
        exact hstop
      · obtain ⟨a, s₂, -, hrest⟩ := bind_eq_ok_iff.1 hrest
        obtain ⟨more, s₃, hmore, hpure⟩ := bind_eq_ok_iff.1 hrest
        obtain ⟨-, rfl⟩ : list = a :: more ∧ s₃ = s' := by simpa [eq_comm] using hpure
        exact ih s₂ more hmore
  exact hfrom _ s list h

/-- Items with a comma between neighbours, and perhaps one after the last. -/
inductive Separated (Q : α → List Token → Prop) : List α → List Token → Prop
  | nil : Separated Q [] []
  | last {a : α} {taken : List Token} (head : Q a taken) : Separated Q [a] taken
  | cons {a : α} {list : List α} {comma : Token} {taken more : List Token} (head : Q a taken)
      (kind : comma.kind = .symbol .comma) (tail : Separated Q list more) :
      Separated Q (a :: list) (taken ++ comma :: more)

namespace Separated

variable {R : α → List Token → Prop} {list : List α} {taken : List Token}

theorem mono (h : Separated Q list taken) (hR : ∀ a own, Q a own → R a own) :
    Separated R list taken := by
  induction h with
  | nil => exact .nil
  | last head => exact .last (hR _ _ head)
  | cons head kind _ ih => exact .cons (hR _ _ head) kind ih

/-- The first item has the first tokens. -/
theorem head {a : α} (h : Separated Q (a :: list) taken) :
    ∃ own rest, taken = own ++ rest ∧ Q a own := by
  cases h with
  | last head => exact ⟨taken, [], by simp, head⟩
  | cons head _ _ => exact ⟨_, _, rfl, head⟩

/-- Every item has some of the tokens. -/
theorem exists_of_mem (h : Separated Q list taken) {a : α} (ha : a ∈ list) :
    ∃ own, own <:+: taken ∧ Q a own := by
  induction h with
  | nil => cases ha
  | last head =>
    obtain rfl := List.mem_singleton.1 ha
    exact ⟨_, List.infix_rfl, head⟩
  | cons head _ _ ih =>
    rcases List.mem_cons.1 ha with rfl | ha
    · exact ⟨_, (List.prefix_append _ _).isInfix, head⟩
    · obtain ⟨own, hown, hQ⟩ := ih ha
      exact ⟨own, hown.trans ((List.suffix_cons _ _).trans (List.suffix_append _ _)).isInfix, hQ⟩

end Separated

/-- **Items separated by commas**; there is one unless the list ends where it starts.  A list that
only ends where no comma follows has the last tokens for its last item. -/
theorem reads_commaList {stop : Token.Kind → Bool}
    (h : ∀ s, stop (current s).kind = false → Reads s p Q) :
    Reads s (commaList stop p) fun list taken =>
      Separated Q list taken ∧ (stop (current s).kind = false → list ≠ []) ∧
        ((∀ kind, stop kind = false) → ∃ front own, taken = front ++ own ∧
          ∃ last ∈ list.getLast?, Q last own) := by
  refine reads_bounded fun n => ?_
  induction n generalizing s with
  | zero => exact reads_exhausted
  | succ n ih =>
    refine reads_peekKind ?_
    split
    · rename_i hstop
      have hnot : stop (current s).kind ≠ false := by simp [hstop]
      exact .pure ⟨.nil, fun h => absurd h hnot, fun h => absurd (h _) hnot⟩
    · rename_i hstop
      refine (h s (by simpa using hstop)).bind fun a s' taken hQ => ?_
      refine reads_eat (by simp) (fun comma s'' hkind => ?_) fun _ => ?_
      · refine ih.bind fun list s₃ more ⟨hrest, _, hlast⟩ => .pure ?_
        rw [List.append_nil]
        refine ⟨.cons hQ hkind hrest, by simp, fun hnever => ?_⟩
        -- the rest has an item, so the last item of the list is the last of the rest
        obtain ⟨front, own, rfl, last, hlist, hown⟩ := hlast hnever
        exact ⟨taken ++ comma :: front, own, by simp, last,
          by simp [List.getLast?_cons, Option.mem_def.1 hlist], hown⟩
      · refine .pure ?_
        rw [List.append_nil]
        exact ⟨.last hQ, by simp, fun _ => ⟨[], taken, rfl, a, rfl, hQ⟩⟩

/-- A value with more tokens taken for it, or no value and no more tokens. -/
def Extends (Inv : α → List Token → Prop) (before : List Token) :
    Option α → List Token → Prop
  | some a, more => Inv a (before ++ more)
  | none, more => more = []

/-- **Extending a value** keeps an invariant of the value and all tokens taken for it. -/
theorem reads_extend {step : α → Parser (Option α)} (Inv : α → List Token → Prop)
    (hstep : ∀ s a taken, Inv a taken → Reads s (step a) (Extends Inv taken))
    {a : α} {taken : List Token} (ha : Inv a taken) :
    Reads s (extend step a) fun b more => Inv b (taken ++ more) := by
  refine reads_bounded fun n => ?_
  induction n generalizing s a taken with
  | zero => exact reads_exhausted
  | succ n ih =>
    refine (hstep s a taken ha).bind fun result s' more hresult => ?_
    cases result with
    | some b =>
      refine (ih hresult).mono fun c rest hc => ?_
      rwa [List.append_assoc] at hc
    | none =>
      obtain rfl : more = [] := hresult
      refine .pure ?_
      rwa [List.append_nil, List.append_nil]

end Parser

end GoTree
