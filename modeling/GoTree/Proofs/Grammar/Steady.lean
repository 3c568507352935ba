import GoTree.Proofs.Grammar.Derivation

/-!
# Steady readers

A reader is steady at a state if it only goes forward, never over the end of the text, comes back to
the expression level it started at, and meets none of the bounds on rounds and nesting.  Two readers
are compared at once: a rule of the grammar written with one choice of readers for the recursive
rules, and the same rule written with another.  Where the two choices agree on all calls with fewer
tokens left, the two rules read the same, so that the bound on the nesting does not matter.

A rule may also be called with as many tokens left as its caller, but only from a rule of a higher
rank: a statement calls expressions, these call operands, and operands call types and literals.

## Main definitions

* `Token.Kind.Inner`: the kinds of tokens other than the end of the text
* `ParserState.Reaches`: one state comes after another
* `Parser.Steady`: two readers that read the same, and how they read
* `Rule.rank`, `Rule.Post`: the rank of a rule, and what holds of what it reads
* `LevelLaw`: the expression levels at which rules may be called
* `Parser.Ready`: a state with tokens enough for some calls
* `Grammar.SteadyBelow`: readers for the recursive rules that are steady below a bound

## Main results

* `Parser.Steady.bind`, `Parser.Steady.first`: readers one after the other
* `Parser.steady_untilKind`, `Parser.steady_commaList`, `Parser.steady_extend`: the three loops,
  whose rounds take at least one token each
-/

namespace GoTree

open GoTree.Parser GoTree.Grammar

/-! ### States -/

/-- A kind of token other than the end of the text. -/
class Token.Kind.Inner (kind : Token.Kind) : Prop where
  ne_endOfFile : kind ≠ .endOfFile

namespace Token.Kind.Inner

instance {s : Symbol} : Inner (.symbol s) := ⟨nofun⟩

instance {k : Keyword} : Inner (.keyword k) := ⟨nofun⟩

instance {l : Literal} : Inner (.literal l) := ⟨nofun⟩

instance : Inner .name := ⟨nofun⟩

end Token.Kind.Inner

namespace ParserState

/-- How many tokens are left. -/
def left (s : ParserState) : Nat :=
  s.tokens.length

/-- **One state comes after another:** at the same expression level, after some tokens none of which
is the end of the text. -/
structure Reaches (s s' : ParserState) : Prop where
  level : s'.level = s.level
  taken : ∃ taken, s.tokens = taken ++ s'.tokens ∧ ∀ token ∈ taken, token.kind ≠ .endOfFile

namespace Reaches

variable {s s' s'' : ParserState}

theorem refl (s : ParserState) : s.Reaches s :=
  ⟨rfl, [], rfl, by simp⟩

theorem trans (h : s.Reaches s') (h' : s'.Reaches s'') : s.Reaches s'' := by
  obtain ⟨hlevel, taken, htokens, hend⟩ := h
  obtain ⟨hlevel', taken', htokens', hend'⟩ := h'
  refine ⟨hlevel'.trans hlevel, taken ++ taken', ?_, ?_⟩
  · rw [htokens, htokens', List.append_assoc]
  · exact List.forall_mem_append.2 ⟨hend, hend'⟩

theorem left_le (h : s.Reaches s') : s'.left ≤ s.left := by
  obtain ⟨-, taken, htokens, -⟩ := h
  rw [left, left, htokens, List.length_append]
  exact Nat.le_add_left ..

end Reaches

end ParserState

namespace Parser

variable {α β : Type} {s : ParserState} {p p' : Parser α}

/-- The kind of the first token of what is left. -/
def nextKind (rest : List Token) : Token.Kind :=
  (rest.headD (.endOfFile 0)).kind

/-! ### Steady readers -/

/-- **Two readers that read the same** at a state, go forward to a state with what holds of the
result and the tokens left, and meet no bound. -/
structure Steady (s : ParserState) (p p' : Parser α) (Q : α → List Token → Prop) : Prop where
  same : p' s = p s
  reaches : s.Reaches (p s).2
  error : ∀ e, (p s).1 = .error e → e.cause ≠ .exhausted
  ok : ∀ a, (p s).1 = .ok a → Q a (p s).2.tokens

/-- Something was taken since `s`, and `P` holds of the result. -/
def Takes (s : ParserState) (P : α → Prop) (a : α) (rest : List Token) : Prop :=
  rest.length < s.left ∧ P a

namespace Steady

variable {Q R : α → List Token → Prop}

/-- Readers that run as steady ones do. -/
theorem of_eq {q q' : Parser α} (h : Steady s q q' Q) (hp : p s = q s) (hp' : p' s = q' s) :
    Steady s p p' Q where
  same := by rw [hp, hp', h.same]
  reaches := by
    rw [hp]
    exact h.reaches
  error := by
    rw [hp]
    exact h.error
  ok := by
    rw [hp]
    exact h.ok

theorem mono (h : Steady s p p' Q) (hR : ∀ a rest, Q a rest → R a rest) : Steady s p p' R :=
  ⟨h.same, h.reaches, h.error, fun a ha => hR a _ (h.ok a ha)⟩

/-- A reader leaves no more tokens than it found. -/
theorem within (h : Steady s p p' Q) :
    Steady s p p' fun a rest => rest.length ≤ s.left ∧ Q a rest :=
  ⟨h.same, h.reaches, h.error, fun a ha => ⟨h.reaches.left_le, h.ok a ha⟩⟩

/-- Only the value matters to what follows. -/
theorem value {P : α → Prop} (h : Steady s p p' (Takes s P)) : Steady s p p' fun a _ => P a :=
  h.mono fun _ _ ha => ha.2

/-- What is taken after a later state is taken after an earlier one. -/
theorem since {s₀ : ParserState} {P : α → Prop} (hs : s₀.Reaches s)
    (h : Steady s p p' (Takes s P)) : Steady s p p' (Takes s₀ P) :=
  h.mono fun _ _ ha => ⟨Nat.lt_of_lt_of_le ha.1 hs.left_le, ha.2⟩

theorem pure {a : α} (h : Q a s.tokens) : Steady s (Pure.pure a) (Pure.pure a) Q where
  same := rfl
  reaches := .refl s
  error := by simp
  ok := by
    intro b hb
    simp only [pure_apply, Except.ok.injEq] at hb ⊢
    exact hb ▸ h

theorem fails {e : SyntaxError} (h : p s = (.error e, s)) (h' : p' s = (.error e, s))
    (hcause : e.cause ≠ .exhausted) : Steady s p p' Q where
  same := h'.trans h.symm
  reaches := by
    rw [h]
    exact .refl s
  error := by
    rw [h]
    rintro _ ⟨⟩
    exact hcause
  ok := by simp [h]

/-- **Readers one after the other.** -/
theorem seq {f f' : α → Parser β} {R : β → List Token → Prop} (hp : Steady s p p' Q)
    (hf : ∀ a s', s.Reaches s' → Q a s'.tokens → Steady s' (f a) (f' a) R) :
    Steady s (p >>= f) (p' >>= f') R := by
  obtain ⟨hsame, hreaches, herror, hok⟩ := hp
  rcases hrun : p s with ⟨e | a, s'⟩
  all_goals rw [hrun] at hsame hreaches herror hok
  · -- the first reader fails, and nothing else is read
    have hbind : (p >>= f) s = (.error e, s') := by rw [bind_apply, hrun]
    have hbind' : (p' >>= f') s = (.error e, s') := by rw [bind_apply, hsame]
    refine ⟨hbind'.trans hbind.symm, ?_, ?_, ?_⟩
    all_goals rw [hbind]
    · exact hreaches
    · rintro _ ⟨⟩
      exact herror e rfl
    · simp
  · have hf := hf a s' hreaches (hok a rfl)
    have hbind : (p >>= f) s = f a s' := by rw [bind_apply, hrun]
    have hbind' : (p' >>= f') s = f' a s' := by rw [bind_apply, hsame]
    refine ⟨by rw [hbind, hbind', hf.same], ?_, ?_, ?_⟩
    all_goals rw [hbind]
    · exact hreaches.trans hf.reaches
    · exact hf.error
    · exact hf.ok

theorem map {f : α → β} {R : β → List Token → Prop} (hp : Steady s p p' Q)
    (hR : ∀ a rest, Q a rest → R (f a) rest) : Steady s (f <$> p) (f <$> p') R :=
  hp.seq fun _ _ _ ha => .pure (hR _ _ ha)

theorem mapTakes {f : α → β} {P : α → Prop} {R : β → Prop} (hp : Steady s p p' (Takes s P))
    (hR : ∀ a, P a → R (f a)) : Steady s (f <$> p) (f <$> p') (Takes s R) :=
  hp.map fun a _ ha => ⟨ha.1, hR a ha.2⟩

/-- A part that was found is there. -/
theorem found {P : α → Prop} (hp : Steady s p p' (Takes s P)) :
    Steady s (some <$> p) (some <$> p') fun part rest => ∀ a ∈ part, Takes s P a rest :=
  hp.map fun _ _ ha => by simpa using ha

end Steady

/-! ### Errors and looking at tokens -/

section

variable {Q : α → List Token → Prop}

theorem steady_fail {cause : Cause} (h : cause ≠ .exhausted) :
    Steady s (fail cause : Parser α) (fail cause) Q :=
  .fails rfl rfl h

theorem steady_failAt {cause : Cause} {start stop : Nat} (h : cause ≠ .exhausted) :
    Steady s (failAt cause start stop : Parser α) (failAt cause start stop) Q :=
  .fails rfl rfl h

theorem steady_failExpected {what : Expectation} :
    Steady s (failExpected what : Parser α) (failExpected what) Q :=
  .fails rfl rfl nofun

theorem steady_peek {f f' : Token → Parser α} (h : Steady s (f (current s)) (f' (current s)) Q) :
    Steady s (peek >>= f) (peek >>= f') Q :=
  h.of_eq rfl rfl

theorem steady_peekKind {f f' : Token.Kind → Parser α}
    (h : Steady s (f (current s).kind) (f' (current s).kind) Q) :
    Steady s (peekKind >>= f) (peekKind >>= f') Q :=
  h.of_eq rfl rfl

theorem steady_peekSecond {f f' : Token.Kind → Parser α}
    (h : ∀ kind, Steady s (f kind) (f' kind) Q) :
    Steady s (peekSecond >>= f) (peekSecond >>= f') Q := by
  have hpeek : ∃ kind, peekSecond s = (.ok kind, s) := by
    unfold peekSecond
    split
    · exact ⟨_, rfl⟩
    · exact ⟨_, rfl⟩
  obtain ⟨kind, hkind⟩ := hpeek
  exact (h kind).of_eq (by rw [bind_apply, hkind]) (by rw [bind_apply, hkind])

theorem steady_level {f f' : Int → Parser α} (h : Steady s (f s.level) (f' s.level) Q) :
    Steady s (level >>= f) (level >>= f') Q :=
  h.of_eq rfl rfl

theorem steady_isAt {kind : Token.Kind} {f f' : Bool → Parser α}
    (htrue : (current s).kind = kind → Steady s (f true) (f' true) Q)
    (hfalse : (current s).kind ≠ kind → Steady s (f false) (f' false) Q) :
    Steady s (isAt kind >>= f) (isAt kind >>= f') Q := by
  have hrun : isAt kind s = (.ok ((current s).kind == kind), s) := rfl
  by_cases hkind : (current s).kind = kind
  · rw [beq_iff_eq.2 hkind] at hrun
    exact (htrue hkind).of_eq (by rw [bind_apply, hrun]) (by rw [bind_apply, hrun])
  · rw [beq_eq_false_iff_ne.2 hkind] at hrun
    exact (hfalse hkind).of_eq (by rw [bind_apply, hrun]) (by rw [bind_apply, hrun])

/-- Whichever token is next. -/
theorem steady_isAt_any {kind : Token.Kind} {f f' : Bool → Parser α}
    (h : ∀ found, Steady s (f found) (f' found) Q) :
    Steady s (isAt kind >>= f) (isAt kind >>= f') Q :=
  steady_isAt (fun _ => h true) fun _ => h false

end

/-! ### Taking tokens -/

/-- Taking a token: all but the end of the text are left behind. -/
theorem steady_next : Steady s next next fun token rest =>
    token = current s ∧ ((current s).kind ≠ .endOfFile → rest.length < s.left) := by
  obtain ⟨tokens, level⟩ := s
  cases tokens with
  | nil => exact Steady.of_eq (.pure ⟨rfl, fun h => absurd rfl h⟩) rfl rfl
  | cons token rest =>
    by_cases hend : token.kind = .endOfFile
    · have hrun : next ⟨token :: rest, level⟩ = (.ok token, ⟨token :: rest, level⟩) := if_pos hend
      exact Steady.of_eq (.pure ⟨rfl, fun h => absurd hend h⟩) hrun hrun
    · have hrun : next ⟨token :: rest, level⟩ = (.ok token, ⟨rest, level⟩) := if_neg hend
      refine ⟨rfl, ?_, ?_, ?_⟩
      all_goals rw [hrun]
      · exact ⟨rfl, [token], rfl, by simpa using hend⟩
      · simp
      · rintro _ ⟨⟩
        exact ⟨rfl, fun _ => Nat.lt_succ_self _⟩

/-- The end of the text apart, a token is left behind. -/
theorem steady_nextPos : Steady s nextPos nextPos fun _ rest =>
    (current s).kind ≠ .endOfFile → rest.length < s.left :=
  steady_next.seq fun _ _ _ h => .pure h.2

theorem steady_take {kind : Token.Kind} [kind.Inner] (hkind : (current s).kind = kind) :
    Steady s next next (Takes s (· = current s)) :=
  steady_next.mono fun _ _ h => ⟨h.2 (hkind ▸ Token.Kind.Inner.ne_endOfFile), h.1⟩

theorem steady_takePos {kind : Token.Kind} [kind.Inner] (hkind : (current s).kind = kind) :
    Steady s nextPos nextPos (Takes s fun _ => True) :=
  steady_nextPos.mono fun _ _ h => ⟨h (hkind ▸ Token.Kind.Inner.ne_endOfFile), trivial⟩

theorem steady_expect {kind : Token.Kind} [kind.Inner] :
    Steady s (expect kind) (expect kind) (Takes s fun _ => True) :=
  steady_isAt (fun hkind => steady_takePos hkind) fun _ => steady_failExpected

theorem steady_endStatement : Steady s endStatement endStatement fun _ _ => True := by
  refine steady_peekKind ?_
  split
  · exact steady_next.seq fun _ _ _ _ => .pure trivial
  · exact .pure trivial
  · exact .pure trivial
  · exact .pure trivial
  · exact steady_failExpected

end Parser

/-! ### Ranks and levels -/

/-- The rank of a rule.  With as many tokens left as its caller, a rule is only called from a rule
of a higher rank. -/
def Rule.rank : Rule → Nat
  | .type | .literal _ | .ifThen => 0
  | .unary => 1
  | .expr _ => 2
  | .stmt => 3

theorem Rule.rank_lt (rule : Rule) : rule.rank < 4 := by
  cases rule <;> simp [rank]

/-- What a call of a rule may take: four steps for every token, and less than four for the rank. -/
def Rule.measure (rule : Rule) (s : ParserState) : Nat :=
  4 * s.left + rule.rank

/-- The expression levels at which expressions and statements may start: those of statements are
reached between brackets, and headers are at level minus one. -/
structure LevelLaw where
  expr : Int → Prop
  stmt : Int → Prop
  expr_of_stmt : ∀ {level}, stmt level → expr level
  stmt_nested : ∀ {level}, expr level → stmt (level + 1)
  expr_header : expr (-1)

namespace LevelLaw

/-- Everything may start at all levels. -/
def all : LevelLaw where
  expr _ := True
  stmt _ := True
  expr_of_stmt _ := trivial
  stmt_nested _ := trivial
  expr_header := trivial

/-- **The levels of Go files:** a statement starts outside all headers, and the deepest level of an
expression is that of a header. -/
def headers : LevelLaw where
  expr level := -1 ≤ level
  stmt level := 0 ≤ level
  expr_of_stmt h := by omega
  stmt_nested h := by omega
  expr_header := Int.le_refl _

/-- The levels at which a simple statement may start: where labels are allowed, those of
statements. -/
def simple (law : LevelLaw) (labelOk : Bool) (level : Int) : Prop :=
  law.expr level ∧ (labelOk = true → law.stmt level)

/-- Whether a rule may be called at a level. -/
def Allows (law : LevelLaw) : Rule → Int → Prop
  | .stmt | .ifThen => law.stmt
  | _ => law.expr

end LevelLaw

namespace Parser

variable {α β : Type} {s s' : ParserState} {p p' : Parser α}

/-- **A state from which calls may be made:** its level is allowed, `header` says whether it is in
the header of a control statement, and the tokens left and `c` more steps stay within `m`. -/
structure Ready (allowed : Int → Prop) (m : Nat) (header : Bool) (c : Nat) (s : ParserState) :
    Prop where
  level : allowed s.level
  header : decide (s.level < 0) = header
  room : 4 * s.left + c ≤ m

variable {allowed : Int → Prop} {m c : Nat} {header : Bool}

namespace Ready

theorem mono {k : Nat} (hs : Ready allowed m header (k + c) s) : Ready allowed m header c s :=
  ⟨hs.level, hs.header, by have := hs.room; omega⟩

theorem reach (hs : Ready allowed m header c s) (h : s.Reaches s') :
    Ready allowed m header c s' where
  level := by
    rw [h.level]
    exact hs.level
  header := by
    rw [h.level]
    exact hs.header
  room := by
    have := hs.room
    have := h.left_le
    omega

theorem measure_lt (hs : Ready allowed m header c s) (rule : Rule) (h : rule.rank < c) :
    rule.measure s < m := by
  have := hs.room
  unfold Rule.measure
  omega

theorem expr {law : LevelLaw} (hs : Ready law.stmt m header c s) : Ready law.expr m header c s :=
  ⟨law.expr_of_stmt hs.level, hs.header, hs.room⟩

theorem exprOfSimple {law : LevelLaw} {labelOk : Bool}
    (hs : Ready (law.simple labelOk) m header c s) : Ready law.expr m header c s :=
  ⟨hs.level.1, hs.header, hs.room⟩

/-- No label is allowed in a header. -/
theorem simpleOfExpr {law : LevelLaw} (hs : Ready law.expr m header c s) :
    Ready (law.simple false) m header c s :=
  ⟨⟨hs.level, by simp⟩, hs.header, hs.room⟩

theorem simpleOfStmt {law : LevelLaw} {labelOk : Bool} (hs : Ready law.stmt m header c s) :
    Ready (law.simple labelOk) m header c s :=
  ⟨⟨law.expr_of_stmt hs.level, fun _ => hs.level⟩, hs.header, hs.room⟩

theorem stmtOfSimple {law : LevelLaw} (hs : Ready (law.simple true) m header c s) :
    Ready law.stmt m header c s :=
  ⟨hs.level.2 rfl, hs.header, hs.room⟩

/-- After a token there is room for every call. -/
theorem after (hs : Ready allowed m header c s) (h : s.Reaches s') (hlt : s'.left < s.left) :
    Ready allowed m header 4 s' where
  level := (hs.reach h).level
  header := (hs.reach h).header
  room := by
    have := hs.room
    omega

/-- There also is room where there was before, if nothing was taken. -/
theorem pass (hs : Ready allowed m header c s) (hopen : 4 ≤ c ∨ (current s).kind ≠ .endOfFile)
    (h : s.Reaches s') (hlt : (current s).kind ≠ .endOfFile → s'.left < s.left) :
    Ready allowed m header 4 s' := by
  rcases hopen with hc | hkind
  · obtain ⟨k, rfl⟩ := Nat.exists_eq_add_of_le' hc
    exact (hs.reach h).mono
  · exact hs.after h (hlt hkind)

end Ready

namespace Steady

variable {Q : α → List Token → Prop}

theorem bind {f f' : α → Parser β} {R : β → List Token → Prop} (hs : Ready allowed m header c s)
    (hp : Steady s p p' Q)
    (hf : ∀ a s', Ready allowed m header c s' → Q a s'.tokens → Steady s' (f a) (f' a) R) :
    Steady s (p >>= f) (p' >>= f') R :=
  hp.seq fun a s' hreach ha => hf a s' (hs.reach hreach) ha

/-- **A reader that takes a token, and what follows:** from there on there is room for every
call. -/
theorem first {f f' : α → Parser β} {P : α → Prop} {R : β → Prop}
    (hs : Ready allowed m header c s) (hp : Steady s p p' (Takes s P))
    (hf : ∀ a s', Ready allowed m header 4 s' → P a → Steady s' (f a) (f' a) fun b _ => R b) :
    Steady s (p >>= f) (p' >>= f') (Takes s R) := by
  refine hp.seq fun a s' hreach ⟨hlt, ha⟩ => ?_
  obtain ⟨hsame, hreaches, herror, hok⟩ := hf a s' (hs.after hreach hlt) ha
  exact ⟨hsame, hreaches, herror, fun b hb =>
    ⟨Nat.lt_of_le_of_lt hreaches.left_le hlt, hok b hb⟩⟩

/-- The same for a part that may be absent. -/
theorem firstFound {f f' : α → Parser (Option β)} {P : α → Prop} {R : β → Prop}
    (hs : Ready allowed m header c s) (hp : Steady s p p' (Takes s P))
    (hf : ∀ a s', Ready allowed m header 4 s' → P a →
      Steady s' (f a) (f' a) fun part _ => ∀ b ∈ part, R b) :
    Steady s (p >>= f) (p' >>= f') fun part rest => ∀ b ∈ part, Takes s R b rest :=
  (first hs hp hf).mono fun _ _ h b hb => ⟨h.1, h.2 b hb⟩

end Steady

/-- A token is left behind unless it is the end of the text, and there is room for every call. -/
theorem Steady.pass {f f' : Offset → Parser β} {R : β → Prop} (hs : Ready allowed m header c s)
    (hopen : 4 ≤ c ∨ (current s).kind ≠ .endOfFile)
    (hf : ∀ pos s', Ready allowed m header 4 s' → Steady s' (f pos) (f' pos) fun b _ => R b) :
    Steady s (nextPos >>= f) (nextPos >>= f') fun b rest =>
      ((current s).kind ≠ .endOfFile → rest.length < s.left) ∧ R b := by
  refine steady_nextPos.seq fun pos s' hreach hlt => ?_
  refine (hf pos s' (hs.pass hopen hreach hlt)).within.mono fun b rest h => ⟨fun hkind => ?_, h.2⟩
  exact Nat.lt_of_le_of_lt h.1 (hlt hkind)

theorem steady_eat_seq {kind : Token.Kind} [kind.Inner] {f f' : Bool → Parser α}
    {R : α → List Token → Prop}
    (htrue : ∀ s', s.Reaches s' → s'.left < s.left → Steady s' (f true) (f' true) R)
    (hfalse : Steady s (f false) (f' false) R) :
    Steady s (eat kind >>= f) (eat kind >>= f') R := by
  -- the two cases part here, since only the first has taken a token
  by_cases hkind : (current s).kind = kind
  · have heat : Steady s (eat kind) (eat kind) fun a rest => rest.length < s.left ∧ a = true :=
      steady_isAt (fun _ => (steady_take hkind).seq fun _ _ _ h => .pure ⟨h.1, rfl⟩)
        fun h => absurd hkind h
    refine heat.seq fun a s' hreach ⟨hlt, ha⟩ => ?_
    exact ha ▸ htrue s' hreach hlt
  · have hisAt : isAt kind s = (.ok false, s) :=
      congrArg (fun b => (Except.ok b, s)) (beq_eq_false_iff_ne.2 hkind)
    have heat : eat kind s = (.ok false, s) := by
      rw [eat, bind_apply, hisAt]
      rfl
    exact hfalse.of_eq (by rw [bind_apply, heat]) (by rw [bind_apply, heat])

theorem steady_eat {kind : Token.Kind} [kind.Inner] {f f' : Bool → Parser α}
    {R : α → List Token → Prop} (hs : Ready allowed m header c s)
    (htrue : ∀ s', Ready allowed m header 4 s' → Steady s' (f true) (f' true) R)
    (hfalse : Steady s (f false) (f' false) R) :
    Steady s (eat kind >>= f) (eat kind >>= f') R :=
  steady_eat_seq (fun s' hreach hlt => htrue s' (hs.after hreach hlt)) hfalse

/-! ### Other levels -/

/-- A reader at another level comes back to the present one if leaving undoes entering: the reader
itself ends at the level it was entered at. -/
theorem steady_withLevel {enter : Int → Int} {leave : Int → Int → Int}
    {Q : α → List Token → Prop} (hleave : leave s.level (enter s.level) = s.level)
    (h : Steady { s with level := enter s.level } p p' Q) :
    Steady s (withLevel enter leave p) (withLevel enter leave p') Q where
  same := by
    unfold withLevel
    rw [h.same]
  reaches := by
    have hlevel : (p { s with level := enter s.level }).2.level = enter s.level := h.reaches.level
    refine ⟨?_, h.reaches.taken⟩
    calc (withLevel enter leave p s).2.level
        = leave s.level (p { s with level := enter s.level }).2.level := rfl
      _ = leave s.level (enter s.level) := by rw [hlevel]
      _ = s.level := hleave
  error := h.error
  ok := h.ok

variable {law : LevelLaw}

/-- **Between brackets** a statement may start, in a function literal. -/
theorem steady_nested {P : α → Prop} (hs : Ready law.expr m header c s)
    (h : ∀ inside s', Ready law.stmt m inside c s' → Steady s' p p' fun a _ => P a) :
    Steady s (nested p) (nested p') fun a _ => P a :=
  steady_withLevel (Int.add_sub_cancel s.level 1)
    (h _ _ ⟨law.stmt_nested hs.level, rfl, hs.room⟩)

theorem steady_header {P : α → Prop} (hs : Ready law.stmt m header c s)
    (h : ∀ s', Ready law.expr m true c s' → Steady s' p p' fun a _ => P a) :
    Steady s (Parser.header p) (Parser.header p') fun a _ => P a :=
  steady_withLevel rfl (h _ ⟨law.expr_header, rfl, hs.room⟩)

/-! ### Loops -/

/-- Items until a kind of token.  The rounds suffice because every item takes a token. -/
theorem steady_untilKindFrom {stop : Token.Kind → Bool} {P : α → Prop}
    (hitem : ∀ s', Ready allowed m header c s' → stop (current s').kind = false →
      Steady s' p p' (Takes s' P)) (n : Nat) {s : ParserState} (hs : Ready allowed m header c s)
    (hn : s.left < n) :
    Steady s (untilKindFrom stop p n) (untilKindFrom stop p' n) fun list _ => ∀ a ∈ list, P a := by
  induction n generalizing s with
  | zero => omega
  | succ n ih =>
    refine steady_peekKind ?_
    split
    · exact .pure (by simp)
    · rename_i hstop
      refine (hitem s hs (by simpa using hstop)).seq fun a s₁ h₁ ⟨hlt, ha⟩ => ?_
      -- a round less and at least a token less
      have hn₁ : s₁.left < n := by
        unfold ParserState.left at *
        omega
      refine (ih (hs.reach h₁) hn₁).seq fun list _ _ hlist => ?_
      exact .pure (List.forall_mem_cons.2 ⟨ha, hlist⟩)

/-- **Items until** a kind of token. -/
theorem steady_untilKind {stop : Token.Kind → Bool} {P : α → Prop}
    (hs : Ready allowed m header c s)
    (hitem : ∀ s', Ready allowed m header c s' → stop (current s').kind = false →
      Steady s' p p' (Takes s' P)) :
    Steady s (untilKind stop p) (untilKind stop p') fun list _ => ∀ a ∈ list, P a :=
  (steady_untilKindFrom hitem _ hs (Nat.lt_succ_self _)).of_eq rfl rfl

theorem steady_commaListFrom {stop : Token.Kind → Bool} {P : α → Prop}
    (hitem : ∀ s', Ready allowed m header c s' → Steady s' p p' (Takes s' P)) (n : Nat)
    {s : ParserState} (hs : Ready allowed m header c s) (hn : s.left < n) :
    Steady s (commaListFrom stop p n) (commaListFrom stop p' n) fun list rest =>
      (∀ a ∈ list, P a) ∧ (stop (current s).kind = false → rest.length < s.left ∧ list ≠ []) := by
  induction n generalizing s with
  | zero => omega
  | succ n ih =>
    refine steady_peekKind ?_
    split
    · rename_i hstop
      exact .pure ⟨by simp, fun h => by simp [hstop] at h⟩
    · refine (hitem s hs).seq fun a s₁ h₁ ⟨hlt, ha⟩ => ?_
      refine steady_eat_seq (fun s₂ h₂ hlt₂ => ?_) ?_
      · have hn₂ : s₂.left < n := by
          unfold ParserState.left at *
          omega
        refine (ih (hs.reach (h₁.trans h₂)) hn₂).seq fun list s₃ h₃ hlist => ?_
        refine .pure ⟨List.forall_mem_cons.2 ⟨ha, hlist.1⟩, fun _ => ⟨?_, by simp⟩⟩
        exact Nat.lt_of_le_of_lt (h₂.trans h₃).left_le hlt
      · exact .pure ⟨by simpa using ha, fun _ => ⟨hlt, by simp⟩⟩

/-- **Items separated by commas**; where the list does not end at once, there is a first item. -/
theorem steady_commaList {stop : Token.Kind → Bool} {P : α → Prop}
    (hs : Ready allowed m header c s)
    (hitem : ∀ s', Ready allowed m header c s' → Steady s' p p' (Takes s' P)) :
    Steady s (commaList stop p) (commaList stop p') fun list rest =>
      (∀ a ∈ list, P a) ∧ (stop (current s).kind = false → rest.length < s.left ∧ list ≠ []) :=
  (steady_commaListFrom hitem _ hs (Nat.lt_succ_self _)).of_eq rfl rfl

/-- Items separated by commas, at least one. -/
theorem steady_commaList_first {P : α → Prop} (hs : Ready allowed m header c s)
    (hitem : ∀ s', Ready allowed m header c s' → Steady s' p p' (Takes s' P)) :
    Steady s (commaList (fun _ => false) p) (commaList (fun _ => false) p')
      (Takes s fun list => list ≠ [] ∧ ∀ a ∈ list, P a) :=
  (steady_commaList hs hitem).mono fun _ _ ⟨hlist, hfirst⟩ =>
    ⟨(hfirst rfl).1, (hfirst rfl).2, hlist⟩

/-- What one step of extending a value finds: a longer value after more tokens, or the end. -/
def Stepped (s : ParserState) (Inv : α → List Token → Prop) (Done : List Token → Prop) :
    Option α → List Token → Prop
  | some b, rest => rest.length < s.left ∧ Inv b rest
  | none, rest => Done rest

theorem steady_extendFrom {step step' : α → Parser (Option α)} {Inv Done : α → List Token → Prop}
    (hstep : ∀ a s', Ready allowed m header c s' → Inv a s'.tokens →
      Steady s' (step a) (step' a) (Stepped s' Inv (Done a)))
    (n : Nat) {s : ParserState} {a : α} (hs : Ready allowed m header c s) (hn : s.left < n)
    (ha : Inv a s.tokens) :
    Steady s (extendFrom step n a) (extendFrom step' n a) Done := by
  induction n generalizing s a with
  | zero => omega
  | succ n ih =>
    refine (hstep a s hs ha).seq fun next s₁ h₁ hnext => ?_
    cases next with
    | none => exact .pure hnext
    | some b =>
      obtain ⟨hlt, hb⟩ := hnext
      have hn₁ : s₁.left < n := by
        unfold ParserState.left at *
        omega
      exact ih (hs.reach h₁) hn₁ hb

/-- **Extending a value:** the invariant holds of every value on the way, and what the last step
finds holds at the end. -/
theorem steady_extend {step step' : α → Parser (Option α)} (Inv : α → List Token → Prop)
    {Done : α → List Token → Prop} {a : α} (hs : Ready allowed m header c s) (ha : Inv a s.tokens)
    (hstep : ∀ a s', Ready allowed m header c s' → Inv a s'.tokens →
      Steady s' (step a) (step' a) (Stepped s' Inv (Done a))) :
    Steady s (extend step a) (extend step' a) Done :=
  (steady_extendFrom hstep _ hs (Nat.lt_succ_self _) ha).of_eq rfl rfl

end Parser

/-! ### The recursive rules -/

/-- No operator follows that binds at least as tightly as `least`. -/
def NoOperator (least : Nat) (rest : List Token) : Prop :=
  ∀ op, binaryOp? (nextKind rest) = some op → op.precedence < least

/-- **What holds of what a rule reads:** it takes a token and reads a phrase of the grammar.  No
operator that binds tightly enough follows an expression, and a statement left out before a closing
brace takes nothing. -/
def Rule.Post : (rule : Rule) → ParserState → rule.Result → List Token → Prop
  | .expr least, s => fun x rest =>
    Takes s (fun x => least ≤ Phrase.prefixLevel →
      (Phrase.expr (s.level < 0) least x).Derived) x rest ∧
    NoOperator least rest
  | .unary, s => Takes s fun x => (Phrase.expr (s.level < 0) Phrase.prefixLevel x).Derived
  | .type, s => fun ty rest => ∀ x ∈ ty, Takes s (fun x => (Phrase.type x).Derived) x rest
  | .literal ty, s => Takes s fun x => ∃ lbrace elts rbrace,
      x = .compositeLit ty lbrace elts rbrace ∧ ∀ e ∈ elts, (Phrase.element e).Derived
  | .stmt, s => fun stmt rest => (Phrase.stmt stmt).Derived ∧
    ((current s).kind ≠ .symbol .rightBrace → rest.length < s.left)
  | .ifThen, s => Takes s fun stmt => (Phrase.ifThen stmt).Derived

namespace Grammar

/-- **Readers for the recursive rules that are steady** wherever less than `m` may be taken. -/
def SteadyBelow (law : LevelLaw) (m : Nat) (g g' : Grammar) : Prop :=
  ∀ (rule : Rule) (s : ParserState), rule.measure s < m → law.Allows rule s.level →
    Steady s (g rule) (g' rule) (rule.Post s)

namespace SteadyBelow

variable {law : LevelLaw} {m : Nat} {g g' : Grammar} {header : Bool} {s : ParserState}

theorem operand (hg : SteadyBelow law m g g') (hs : Ready law.expr m header 2 s) :
    Steady s (g .unary) (g' .unary)
      (Takes s fun x => (Phrase.expr header Phrase.prefixLevel x).Derived) :=
  hs.header ▸ hg .unary s (hs.measure_lt .unary (Nat.lt_add_one _)) hs.level

theorem binary (hg : SteadyBelow law m g g') (hs : Ready law.expr m header 3 s) (least : Nat) :
    Steady s (g (.expr least)) (g' (.expr least)) fun x rest =>
      Takes s (fun x => least ≤ Phrase.prefixLevel → (Phrase.expr header least x).Derived) x rest ∧
      NoOperator least rest :=
  hs.header ▸ hg (.expr least) s (hs.measure_lt (.expr least) (Nat.lt_add_one _)) hs.level

theorem expr (hg : SteadyBelow law m g g') (hs : Ready law.expr m header 3 s) :
    Steady s g.expr g'.expr (Takes s fun x => (Phrase.expr header 1 x).Derived) :=
  (hg.binary hs 1).mono fun _ _ h => ⟨h.1.1, h.1.2 (by decide)⟩

theorem type (hg : SteadyBelow law m g g') (hs : Ready law.expr m header 1 s) :
    Steady s (g .type) (g' .type) fun ty rest =>
      ∀ x ∈ ty, Takes s (fun x => (Phrase.type x).Derived) x rest :=
  hg .type s (hs.measure_lt .type (Nat.lt_add_one _)) hs.level

theorem literal (hg : SteadyBelow law m g g') (hs : Ready law.expr m header 1 s)
    (ty : Option Expr) :
    Steady s (g (.literal ty)) (g' (.literal ty)) (Takes s fun x => ∃ lbrace elts rbrace,
      x = .compositeLit ty lbrace elts rbrace ∧ ∀ e ∈ elts, (Phrase.element e).Derived) :=
  hg (.literal ty) s (hs.measure_lt (.literal ty) (Nat.lt_add_one _)) hs.level

theorem stmt (hg : SteadyBelow law m g g') (hs : Ready law.stmt m header 4 s) :
    Steady s (g .stmt) (g' .stmt) fun stmt rest => (Phrase.stmt stmt).Derived ∧
      ((current s).kind ≠ .symbol .rightBrace → rest.length < s.left) :=
  hg .stmt s (hs.measure_lt .stmt (Nat.lt_add_one _)) hs.level

theorem ifThen (hg : SteadyBelow law m g g') (hs : Ready law.stmt m header 1 s) :
    Steady s (g .ifThen) (g' .ifThen) (Takes s fun stmt => (Phrase.ifThen stmt).Derived) :=
  hg .ifThen s (hs.measure_lt .ifThen (Nat.lt_add_one _)) hs.level

end SteadyBelow

end Grammar

end GoTree
