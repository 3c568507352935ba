import Mathlib.Data.List.Forall2
import GoTree.Proofs.Grammar.Spelling
import GoTree.Proofs.Syntax.Moved
import GoTree.Proofs.Token.Returns

/-!
# Reading moved tokens

Readers look at the kinds of the tokens and store their offsets, and never compare two offsets.  So
on tokens that stand elsewhere a reader does what it does on the tokens themselves, and the result
is the same but for its offsets.  Carriage returns before the line feeds of a text move its tokens
in this way.

## Main definitions

* `Text.tokenShift`: where a token starts in the text with carriage returns
* `Token.Moved`, `ParserState.Moved`: tokens that stand elsewhere, and what is left of them
* `Parser.Moves`: a reader that reads the moved result from moved tokens

## Main results

* `TokenStream.forall₂_moved`: carriage returns move the tokens the grammar reads
* `Parser.Moves.bind`: readers one after the other
* `Parser.moves_untilKind`, `Parser.moves_commaList`, `Parser.moves_extend`: the three loops
-/

namespace GoTree

open GoTree.Text

/-! ### Tokens -/

/-- **Where the token at an offset starts** in the text with carriage returns: a line feed stands
behind its new carriage return. -/
def Text.tokenShift (t : Text) (n : Offset) : Offset :=
  if t.bytes[n]? = some 0x0a then t.shift n + 1 else t.shift n

namespace Text

theorem head?_bytes_eq_lineFeed {x : Text} : x.bytes.head? = some 0x0a ↔ x.head? = some '\n' := by
  cases x with
  | nil => simp [bytes]
  | cons c x =>
    rw [bytes_cons, List.head?_cons, Option.some.injEq]
    constructor
    · intro hhead
      by_contra hc
      have hne : String.utf8EncodeChar c ≠ [] := by
        rw [← List.length_pos_iff, String.length_utf8EncodeChar]
        exact c.utf8Size_pos
      obtain ⟨b, bs, hbs⟩ := List.exists_cons_of_ne_nil hne
      refine not_lineFeed_mem_utf8EncodeChar hc ?_
      rw [hbs, List.cons_append, List.head?_cons, Option.some.injEq] at hhead
      rw [hbs, hhead]
      exact List.mem_cons_self ..
    · rintro rfl
      rfl

/-- The byte at the start of a slice. -/
theorem getElem?_bytes_of_slice? {t x : Text} {start stop : Nat}
    (h : t.slice? start stop = some x) (hx : x ≠ []) :
    t.bytes[start]? = some 0x0a ↔ x.head? = some '\n' := by
  obtain ⟨a, b, rfl, rfl, -⟩ := slice?_eq_some_iff.1 h
  have hbytes : x.bytes ≠ [] := by
    rw [← List.length_pos_iff, length_bytes]
    exact size_pos hx
  rw [← head?_bytes_eq_lineFeed, bytes_append, bytes_append, List.append_assoc,
    List.getElem?_append_right (by rw [length_bytes]), length_bytes, Nat.sub_self,
    ← List.head?_eq_getElem?, List.head?_append_of_ne_nil _ hbytes]

theorem tokenShift_of_slice? {t x : Text} {start stop : Nat} (h : t.slice? start stop = some x)
    (hx : x ≠ []) (hhead : x.head? ≠ some '\n') : t.tokenShift start = t.shift start :=
  if_neg (mt (getElem?_bytes_of_slice? h hx).1 hhead)

/-- The end of the text. -/
theorem tokenShift_size (t : Text) : t.tokenShift t.size = (withReturns t).size := by
  have hend : t.bytes[t.size]? = none := List.getElem?_eq_none (by rw [length_bytes])
  rw [tokenShift, hend, if_neg (by simp), shift_size]

end Text

namespace Token

/-- **A token that stands elsewhere:** its offset is moved, and what is stored of it stays. -/
structure Moved (f : Offset → Offset) (a b : Token) : Prop where
  kind : b.kind = a.kind
  start : b.start = f a.start
  stored : b.stored? = a.stored?
  isEmpty : b.text.isEmpty = a.text.isEmpty

/-- Blanks within a line do not matter to the grammar. -/
theorem significant_visible (size : Nat) (pending : Bool) (tokens : List Token) :
    significant size pending (visible tokens) = significant size pending tokens := by
  induction tokens generalizing pending with
  | nil => rfl
  | cons token tokens ih =>
    rw [visible_cons]
    split
    · rename_i hkind
      have hblank : token.breaksLine = false := by simp [breaksLine, hkind]
      rw [significant, hkind, if_pos (by rfl), hblank, Bool.and_false, if_neg (by simp), ih]
    · simp only [significant, ih]

variable {t : Text}

theorem Widened.kind_eq {a b : Token} (h : Widened t a b) : b.kind = a.kind := by
  cases h <;> rfl

/-- A line breaks in the same places. -/
theorem Widened.breaksLine_eq {a b : Token} (h : Widened t a b) : b.breaksLine = a.breaksLine := by
  cases h with
  | newline start => rfl
  | line kind start hline => rfl
  | lines start hhead hkind =>
    simp only [breaksLine, List.contains_eq_mem, newline_mem_withReturns]
  | ended start hline hkind =>
    rcases hkind with rfl | rfl <;> simp [breaksLine]

/-- Only a line feed starts with one. -/
theorem Widened.head?_ne {a b : Token} (h : Widened t a b) (hkind : a.kind ≠ .newline) :
    a.text.head? ≠ some '\n' := by
  cases h with
  | newline start => exact absurd rfl hkind
  | line kind start hline => exact fun hhead => hline (List.mem_of_head? hhead)
  | lines start hhead hkind => exact hhead
  | ended start hline hkind => exact fun hhead => hline (List.mem_of_head? hhead)

/-- The token itself is moved, and so is the line break it makes. -/
theorem Widened.moved {a b : Token} (h : Widened t a b)
    (hslice : t.slice? a.start a.stop = some a.text) (hne : a.text ≠ []) :
    b.start = t.tokenShift a.start ∧ (a.kind.isTrivia = false → Moved t.tokenShift a b) := by
  cases h with
  | newline start =>
    refine ⟨?_, by simp [Kind.isTrivia]⟩
    exact (if_pos ((getElem?_bytes_of_slice? hslice hne).2 rfl)).symm
  | @line kind start x hline =>
    have hstart := tokenShift_of_slice? hslice hne fun hhead => hline (List.mem_of_head? hhead)
    exact ⟨hstart.symm, fun _ => ⟨rfl, hstart.symm, rfl, rfl⟩⟩
  | @lines kind start x hhead hkind =>
    have hstart := tokenShift_of_slice? hslice hne hhead
    refine ⟨hstart.symm, fun htrivia => ⟨rfl, hstart.symm, ?_, ?_⟩⟩
    · rcases hkind with rfl | rfl | ⟨rfl, hraw⟩
      · simp [Kind.isTrivia] at htrivia
      · rfl
      · -- a raw string is stored without carriage returns, so the new ones are not seen
        have hraw' := (head?_withReturns (t := x) (by decide) (by decide)).2 hraw
        simp only [stored?, Parser.storedLiteral, hraw, hraw', if_true]
        rw [withoutReturns_withReturns]
    · rw [Bool.eq_iff_iff, List.isEmpty_iff, List.isEmpty_iff]
      exact withReturns_eq_nil
  | @ended kind start x hline hkind =>
    have hstart := tokenShift_of_slice? hslice hne fun hhead => hline (List.mem_of_head? hhead)
    refine ⟨hstart.symm, fun htrivia => ⟨rfl, hstart.symm, ?_, ?_⟩⟩
    · rcases hkind with rfl | rfl
      · simp [Kind.isTrivia] at htrivia
      · rfl
    · rw [Bool.eq_iff_iff, List.isEmpty_iff, List.isEmpty_iff]
      simpa using hne

/-- A token the grammar reads moves like the text around it. -/
theorem tokenShift_of_mem_body {token : Token} (htoken : token ∈ body t)
    (htrivia : token.kind.isTrivia = false) :
    t.tokenShift token.start = t.shift token.start := by
  have hheads := (forall₂_body t).imp fun a b hab => And.intro hab.head?_ne hab
  have hvisible : token ∈ visible (body t) := by
    refine List.mem_filter.2 ⟨htoken, ?_⟩
    rw [bne_iff_ne]
    intro hkind
    rw [hkind] at htrivia
    cases htrivia
  have hhead := ((List.forall₂_and_left ..).1 hheads).1 token hvisible
  refine tokenShift_of_slice? ((tiles_body t).slice?_of_mem htoken)
    (proper_of_mem_body htoken).1 (hhead ?_)
  intro hkind
  rw [hkind] at htrivia
  cases htrivia

/-- **The tokens the grammar reads** of moved tokens. -/
theorem forall₂_significant (pending : Bool) {tokens tokens' : List Token}
    (h : List.Forall₂ (Widened t) tokens tokens')
    (hslice : ∀ token ∈ tokens, t.slice? token.start token.stop = some token.text ∧
      token.text ≠ []) :
    List.Forall₂ (Moved t.tokenShift) (significant t.size pending tokens)
      (significant (withReturns t).size pending tokens') := by
  induction h generalizing pending with
  | nil =>
    have hmoved (kind : Kind) : Moved t.tokenShift ⟨kind, t.size, []⟩
        ⟨kind, (withReturns t).size, []⟩ := ⟨rfl, (tokenShift_size t).symm, rfl, rfl⟩
    cases pending with
    | false => exact .cons (hmoved _) .nil
    | true => exact .cons (hmoved _) (.cons (hmoved _) .nil)
  | @cons a b tokens tokens' hab _ ih =>
    rw [List.forall_mem_cons] at hslice
    obtain ⟨hstart, hmoved⟩ := hab.moved hslice.1.1 hslice.1.2
    rw [significant, significant, hab.kind_eq, hab.breaksLine_eq]
    split
    · -- a line break that ends a statement stands for a semicolon
      split
      · exact .cons ⟨rfl, hstart, rfl, rfl⟩ (ih false hslice.2)
      · exact ih pending hslice.2
    · rename_i htrivia
      exact .cons (hmoved (by simpa using htrivia)) (ih _ hslice.2)

end Token

/-- **Carriage returns move the tokens the grammar reads.** -/
theorem TokenStream.forall₂_moved (t : Text) :
    List.Forall₂ (Token.Moved t.tokenShift) (ofText t).tokens (ofText (withReturns t)).tokens := by
  rw [tokens_eq, tokens_eq, ← Token.significant_visible,
    ← Token.significant_visible t.withReturns.size]
  refine Token.forall₂_significant false (Token.forall₂_body t) fun token htoken => ?_
  have hbody : token ∈ Token.body t := (List.mem_filter.1 htoken).1
  exact ⟨(Token.tiles_body t).slice?_of_mem hbody, (Token.proper_of_mem_body hbody).1⟩

/-- **What is left of moved tokens.** -/
structure ParserState.Moved (f : Offset → Offset) (s s' : ParserState) : Prop where
  tokens : List.Forall₂ (Token.Moved f) s.tokens s'.tokens
  level : s'.level = s.level
  /-- The end of the text is never taken. -/
  ends : ∃ last, s.tokens.getLast? = some last ∧ last.kind = .endOfFile

namespace Parser

variable {α β γ δ : Type} {f : Offset → Offset}

/-- **A reader that reads the moved result:** on moved tokens `p'` succeeds where `p` does, and then
returns what `F` makes of the result of `p`. -/
def Moves (f : Offset → Offset) (F : α → β) (p : Parser α) (p' : Parser β) : Prop :=
  ∀ s s', s.Moved f s' →
    (∃ a u u', p s = (.ok a, u) ∧ p' s' = (.ok (F a), u') ∧ u.Moved f u') ∨
      ∃ e u e' u', p s = (.error e, u) ∧ p' s' = (.error e', u')

namespace Moves

variable {F : α → β} {G : γ → δ} {p : Parser α} {p' : Parser β}

theorem pure {a : α} {b : β} (h : b = F a) : Moves f F (pure a) (pure b) := by
  intro s s' hs
  subst h
  exact .inl ⟨a, s, s', rfl, rfl, hs⟩

/-- **One reader after the other.** -/
theorem bind {k : α → Parser γ} {k' : β → Parser δ} (hp : Moves f F p p')
    (hk : ∀ a, Moves f G (k a) (k' (F a))) : Moves f G (p >>= k) (p' >>= k') := by
  intro s s' hs
  rw [bind_apply, bind_apply]
  rcases hp s s' hs with ⟨a, u, u', hrun, hrun', hu⟩ | ⟨e, u, e', u', hrun, hrun'⟩
  · rw [hrun, hrun']
    exact hk a u u' hu
  · rw [hrun, hrun']
    exact .inr ⟨e, u, e', u', rfl, rfl⟩

theorem map {g : α → γ} {g' : β → δ} (hp : Moves f F p p') (h : ∀ a, g' (F a) = G (g a)) :
    Moves f G (g <$> p) (g' <$> p') := by
  have hbind : Moves f G (p >>= fun a => Pure.pure (g a)) (p' >>= fun b => Pure.pure (g' b)) :=
    hp.bind fun a => .pure (h a)
  exact hbind

/-- A test that comes out the same. -/
theorem ite {p q : Parser α} {p' q' : Parser β} {P Q : Prop} [Decidable P] [Decidable Q]
    (h : Q ↔ P) (hp : Moves f F p p') (hq : Moves f F q q') :
    Moves f F (if P then p else q) (if Q then p' else q') := by
  by_cases hP : P
  · rwa [if_pos hP, if_pos (h.2 hP)]
  · rwa [if_neg hP, if_neg (mt h.1 hP)]

end Moves

/-! ### Errors -/

theorem moves_fail {F : α → β} (cause : Cause) : Moves f F (fail cause) (fail cause) :=
  fun _ _ _ => .inr ⟨_, _, _, _, rfl, rfl⟩

theorem moves_failAt {F : α → β} (cause : Cause) (start stop start' stop' : Nat) :
    Moves f F (failAt cause start stop) (failAt cause start' stop') :=
  fun _ _ _ => .inr ⟨_, _, _, _, rfl, rfl⟩

theorem moves_failExpected {F : α → β} (what : Expectation) :
    Moves f F (failExpected what) (failExpected what) :=
  fun _ _ _ => .inr ⟨_, _, _, _, rfl, rfl⟩

theorem moves_exhausted {F : α → β} : Moves f F exhausted exhausted :=
  moves_failAt _ 0 0 0 0

end Parser

/-- The next tokens, and what follows them. -/
theorem ParserState.Moved.exists_cons {f : Offset → Offset} {s s' : ParserState}
    (h : s.Moved f s') :
    ∃ a rest b rest', s.tokens = a :: rest ∧ s'.tokens = b :: rest' ∧ Token.Moved f a b ∧
      List.Forall₂ (Token.Moved f) rest rest' := by
  obtain ⟨tokens, level⟩ := s
  obtain ⟨tokens', level'⟩ := s'
  obtain ⟨htokens, -, last, hlast, -⟩ := h
  cases htokens with
  | nil => simp at hlast
  | cons hab hrest => exact ⟨_, _, _, _, rfl, rfl, hab, hrest⟩

namespace Parser

variable {α β : Type} {f : Offset → Offset} {F : α → β}

theorem current_moved {s s' : ParserState} (h : s.Moved f s') :
    Token.Moved f (current s) (current s') := by
  obtain ⟨a, rest, b, rest', hs, hs', hab, -⟩ := h.exists_cons
  simpa [current, hs, hs'] using hab

/-! ### Looking ahead -/

theorem moves_peek {k : Token → Parser α} {k' : Token → Parser β}
    (h : ∀ a b, Token.Moved f a b → Moves f F (k a) (k' b)) :
    Moves f F (peek >>= k) (peek >>= k') :=
  fun s s' hs => h _ _ (current_moved hs) s s' hs

theorem moves_peekKind {k : Token.Kind → Parser α} {k' : Token.Kind → Parser β}
    (h : ∀ kind, Moves f F (k kind) (k' kind)) : Moves f F (peekKind >>= k) (peekKind >>= k') := by
  intro s s' hs
  have hrun : (peekKind >>= k') s' = k' (current s).kind s' := by
    rw [← (current_moved hs).kind]
    rfl
  rw [hrun]
  exact h _ s s' hs

theorem moves_peekSecond {k : Token.Kind → Parser α} {k' : Token.Kind → Parser β}
    (h : ∀ kind, Moves f F (k kind) (k' kind)) :
    Moves f F (peekSecond >>= k) (peekSecond >>= k') := by
  intro s s' hs
  obtain ⟨kind, hrun, hrun'⟩ : ∃ kind, peekSecond s = (.ok kind, s) ∧
      peekSecond s' = (.ok kind, s') := by
    have hcurrent := (current_moved hs).kind
    obtain ⟨a, rest, b, rest', htokens, htokens', -, hrest⟩ := hs.exists_cons
    unfold peekSecond
    rw [htokens, htokens']
    cases hrest with
    | nil => exact ⟨_, rfl, by rw [hcurrent]⟩
    | cons hab _ => exact ⟨_, rfl, by simp only [hab.kind]⟩
  rw [bind_apply, bind_apply, hrun, hrun']
  exact h kind s s' hs

theorem moves_level {k : Int → Parser α} {k' : Int → Parser β}
    (h : ∀ level, Moves f F (k level) (k' level)) : Moves f F (level >>= k) (level >>= k') := by
  intro s s' hs
  have hrun : (level >>= k') s' = k' s.level s' := by
    rw [← hs.level]
    rfl
  rw [hrun]
  exact h _ s s' hs

theorem moves_isAt_id (kind : Token.Kind) : Moves f id (isAt kind) (isAt kind) :=
  fun s s' hs => .inl ⟨_, s, s', rfl, by rw [isAt, (current_moved hs).kind]; rfl, hs⟩

theorem moves_isAt {kind : Token.Kind} {k : Bool → Parser α} {k' : Bool → Parser β}
    (hat : Moves f F (k true) (k' true)) (hnot : Moves f F (k false) (k' false)) :
    Moves f F (isAt kind >>= k) (isAt kind >>= k') := by
  refine (moves_isAt_id kind).bind fun b => ?_
  cases b with
  | false => exact hnot
  | true => exact hat

/-! ### Taking tokens -/

/-- The next tokens correspond, and so does what is left behind them. -/
theorem next_moved {s s' : ParserState} (hs : s.Moved f s') :
    ∃ u u', next s = (.ok (current s), u) ∧ next s' = (.ok (current s'), u') ∧ u.Moved f u' := by
  have hkinds := (current_moved hs).kind
  obtain ⟨a, rest, b, rest', htokens, htokens', -, hrest⟩ := hs.exists_cons
  have ha : current s = a := by simp [current, htokens]
  have hb : current s' = b := by simp [current, htokens']
  rw [ha, hb] at hkinds ⊢
  unfold next
  rw [htokens, htokens']
  dsimp only
  rw [hkinds]
  by_cases hend : a.kind = .endOfFile
  · simp only [hend, if_true]
    exact ⟨s, s', rfl, rfl, hs⟩
  · simp only [hend, if_false]
    refine ⟨_, _, rfl, rfl, hrest, hs.level, ?_⟩
    -- the token taken is not the last one
    obtain ⟨last, hlast, hkind⟩ := hs.ends
    rw [htokens, List.getLast?_cons, Option.some.injEq] at hlast
    cases hlast' : rest.getLast? with
    | none =>
      rw [hlast', Option.getD_none] at hlast
      exact absurd (hlast ▸ hkind) hend
    | some other =>
      rw [hlast', Option.getD_some] at hlast
      exact ⟨other, rfl, hlast ▸ hkind⟩

theorem moves_next {k : Token → Parser α} {k' : Token → Parser β}
    (h : ∀ a b, Token.Moved f a b → Moves f F (k a) (k' b)) :
    Moves f F (next >>= k) (next >>= k') := by
  intro s s' hs
  obtain ⟨u, u', hrun, hrun', hu⟩ := next_moved hs
  rw [bind_apply, bind_apply, hrun, hrun']
  exact h _ _ (current_moved hs) u u' hu

theorem moves_nextPos : Moves f f nextPos nextPos :=
  moves_next fun _ _ hab => .pure hab.start

theorem moves_expect (kind : Token.Kind) : Moves f f (expect kind) (expect kind) :=
  moves_isAt moves_nextPos (moves_failExpected _)

theorem moves_eat {kind : Token.Kind} {k : Bool → Parser α} {k' : Bool → Parser β}
    (hat : Moves f F (k true) (k' true)) (hnot : Moves f F (k false) (k' false)) :
    Moves f F (eat kind >>= k) (eat kind >>= k') := by
  have heat : Moves f id (eat kind) (eat kind) :=
    moves_isAt (moves_next fun _ _ _ => .pure rfl) (.pure rfl)
  refine heat.bind fun b => ?_
  cases b with
  | false => exact hnot
  | true => exact hat

theorem moves_endStatement : Moves f id endStatement endStatement := by
  refine moves_peekKind fun kind => ?_
  split
  · exact moves_next fun _ _ _ => .pure rfl
  · exact .pure rfl
  · exact .pure rfl
  · exact .pure rfl
  · exact moves_failExpected _

/-! ### The expression level -/

theorem moves_withLevel {p : Parser α} {p' : Parser β} {enter : Int → Int}
    {leave : Int → Int → Int} (h : Moves f F p p') :
    Moves f F (withLevel enter leave p) (withLevel enter leave p') := by
  intro s s' hs
  have hinner : ParserState.Moved f { s with level := enter s.level }
      { s' with level := enter s'.level } := ⟨hs.tokens, by simp [hs.level], hs.ends⟩
  unfold withLevel
  rcases h _ _ hinner with ⟨a, u, u', hrun, hrun', hu⟩ | ⟨e, u, e', u', hrun, hrun'⟩
  · rw [hrun, hrun']
    have hlevel : leave s'.level u'.level = leave s.level u.level := by rw [hs.level, hu.level]
    exact .inl ⟨a, _, _, rfl, rfl, hu.tokens, hlevel, hu.ends⟩
  · rw [hrun, hrun']
    exact .inr ⟨e, _, e', _, rfl, rfl⟩

theorem moves_nested {p : Parser α} {p' : Parser β} (h : Moves f F p p') :
    Moves f F (nested p) (nested p') :=
  moves_withLevel h

theorem moves_header {p : Parser α} {p' : Parser β} (h : Moves f F p p') :
    Moves f F (header p) (header p') :=
  moves_withLevel h

/-! ### Loops -/

theorem moves_bounded {p : Nat → Parser α} {p' : Nat → Parser β}
    (h : ∀ n, Moves f F (p n) (p' n)) : Moves f F (bounded p) (bounded p') := by
  intro s s' hs
  have hlength : s'.tokens.length = s.tokens.length := hs.tokens.length_eq.symm
  unfold bounded
  rw [hlength]
  exact h _ s s' hs

/-- **Items until a kind.** -/
theorem moves_untilKind {p : Parser α} {p' : Parser β} {stop : Token.Kind → Bool}
    (h : Moves f F p p') : Moves f (List.map F) (untilKind stop p) (untilKind stop p') := by
  refine moves_bounded fun n => ?_
  induction n with
  | zero => exact moves_exhausted
  | succ n ih =>
    refine moves_peekKind fun kind => ?_
    split
    · exact .pure rfl
    · exact h.bind fun a => ih.bind fun rest => .pure rfl

/-- **Items separated by commas.** -/
theorem moves_commaList {p : Parser α} {p' : Parser β} {stop : Token.Kind → Bool}
    (h : Moves f F p p') : Moves f (List.map F) (commaList stop p) (commaList stop p') := by
  refine moves_bounded fun n => ?_
  induction n with
  | zero => exact moves_exhausted
  | succ n ih =>
    refine moves_peekKind fun kind => ?_
    split
    · exact .pure rfl
    · exact h.bind fun a => moves_eat (ih.bind fun rest => .pure rfl) (.pure rfl)

/-- **Extending a value.** -/
theorem moves_extend {step : α → Parser (Option α)} {step' : β → Parser (Option β)}
    (h : ∀ a, Moves f (Option.map F) (step a) (step' (F a))) (a : α) :
    Moves f F (extend step a) (extend step' (F a)) := by
  refine moves_bounded fun n => ?_
  induction n generalizing a with
  | zero => exact moves_exhausted
  | succ n ih =>
    refine (h a).bind fun result => ?_
    cases result with
    | none => exact .pure rfl
    | some b => exact ih b

/-! ### Names and literals -/

theorem moves_ident : Moves f (Ident.move f) ident ident := by
  intro s s' hs
  obtain ⟨u, u', hrun, hrun', hu⟩ := next_moved hs
  have hmoved := current_moved hs
  by_cases hkind : (current s).kind = .name
  · have hkind' : (current s').kind = .name := hmoved.kind.trans hkind
    have hstored := hmoved.stored
    simp only [Token.stored?, hkind, hkind', Option.some.injEq] at hstored
    refine .inl ⟨⟨(current s).start, String.ofList (current s).text⟩, u, u', ?_, ?_, hu⟩
    · simp [ident, bind_apply, isAt, hkind, hrun]
    · simp [ident, bind_apply, isAt, hkind', hrun', Ident.move, hmoved.start, hstored]
  · have hfail {s : ParserState} (hkind : (current s).kind ≠ .name) :
        ident s = failExpected .identifier s := by
      simp [ident, bind_apply, isAt, hkind]
    rw [hfail hkind, hfail (hmoved.kind ▸ hkind)]
    exact moves_failExpected _ s s' hs

theorem moves_identList : Moves f (List.map (Ident.move f)) identList identList :=
  moves_commaList moves_ident

theorem moves_basicLit : Moves f (BasicLit.move f) basicLit basicLit := by
  intro s s' hs
  obtain ⟨u, u', hrun, hrun', hu⟩ := next_moved hs
  have hmoved := current_moved hs
  cases hkind : (current s).kind with
  | literal kind =>
    have hkind' : (current s').kind = .literal kind := hmoved.kind.trans hkind
    have hstored := hmoved.stored
    simp only [Token.stored?, hkind, hkind', Option.some.injEq] at hstored
    refine .inl ⟨⟨(current s).start, kind, storedLiteral (current s).text⟩, u, u', ?_, ?_, hu⟩
    · simp [basicLit, bind_apply, peekKind, hkind, hrun]
    · simp [basicLit, bind_apply, peekKind, hkind', hrun', BasicLit.move, hmoved.start, hstored]
  | symbol | keyword | name | whitespace | newline | lineComment | blockComment | unknown
  | endOfFile =>
    have hfail : basicLit s = failExpected .literal s := by
      simp [basicLit, bind_apply, peekKind, hkind]
    have hfail' : basicLit s' = failExpected .literal s' := by
      simp [basicLit, bind_apply, peekKind, hmoved.kind.trans hkind]
    rw [hfail, hfail']
    exact moves_failExpected _ s s' hs

end Parser

end GoTree
