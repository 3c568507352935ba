import GoTree.Grammar.Run
import GoTree.Proofs.Grammar.SteadyStatement

/-!
# Steady runs

The bound on the nesting of rules does not matter: every call of a rule either takes a token before
it calls the rule again or is between rules of falling rank, so that four calls for every token left
and four more suffice.  The rules therefore are one grammar without a bound, the only one that
satisfies its own equations, and the files it reads are files of the grammar.

## Main definitions

* `Grammar.IsRunAt`: readers with a bound on the nesting that follow the rules at some levels
* `Grammar.total`: the rules without a bound

## Main results

* `Grammar.steadyBelow_of_isRunAt`: runs with enough nesting read the same, and steadily
* `Grammar.body_total`, `Grammar.eq_total`: the rules without a bound, and that there are no others
* `Grammar.steady_file`: the declarations of a file
* `derived_of_parse`: what is read from a text is a file of the grammar
* `not_exhausted_of_parse`: no text meets a bound
-/

namespace GoTree

namespace Grammar

open GoTree.Parser

variable {law : LevelLaw} {m n n' : Nat} {header : Bool} {g g' : Grammar} {s : ParserState}

/-! ### The recursive rules -/

/-- **Every rule is steady** where the rules it calls are, below its own measure. -/
theorem steady_body {rule : Rule} (hg : SteadyBelow law (rule.measure s) g g')
    (hlevel : law.Allows rule s.level) : Steady s (body g rule) (body g' rule) (rule.Post s) := by
  have hready {allowed : Int → Prop} (h : allowed s.level) :
      Ready allowed (rule.measure s) (decide (s.level < 0)) rule.rank s := ⟨h, rfl, Nat.le_refl _⟩
  cases rule with
  | expr least => exact steady_exprBody hg (hready hlevel) least
  | unary => exact steady_unaryBody hg (hready hlevel)
  | type => exact steady_typeBody hg (hready hlevel)
  | literal ty => exact steady_literalBody hg (hready hlevel) ty
  | stmt => exact steady_stmtBody hg (hready hlevel)
  | ifThen => exact steady_ifThenBody hg (hready hlevel)

/-- Readers with a bound on the nesting that follow the rules at the levels a law allows. -/
def IsRunAt (law : LevelLaw) (F : Nat → Grammar) : Prop :=
  ∀ n rule s, law.Allows rule s.level → F (n + 1) rule s = body (F n) rule s

theorem isRunAt_run (law : LevelLaw) : IsRunAt law run :=
  fun _ _ _ _ => rfl

theorem SteadyBelow.mono (hg : SteadyBelow law m g g') {k : Nat} (hk : k ≤ m) :
    SteadyBelow law k g g' :=
  fun rule s hs hlevel => hg rule s (Nat.lt_of_lt_of_le hs hk) hlevel

/-- **Runs with enough nesting read the same**, whatever their bounds. -/
theorem steadyBelow_of_isRunAt {F F' : Nat → Grammar} (hF : IsRunAt law F) (hF' : IsRunAt law F')
    (hn : m ≤ n) (hn' : m ≤ n') : SteadyBelow law m (F n) (F' n') := by
  induction m generalizing n n' with
  | zero => exact fun rule s hs _ => absurd hs (Nat.not_lt_zero _)
  | succ m ih =>
    intro rule s hs hlevel
    obtain ⟨k, rfl⟩ := Nat.exists_eq_add_of_le' (Nat.lt_of_lt_of_le (Nat.succ_pos m) hn)
    obtain ⟨k', rfl⟩ := Nat.exists_eq_add_of_le' (Nat.lt_of_lt_of_le (Nat.succ_pos m) hn')
    -- what the rule calls is below its own measure, and each run has a level of nesting left for it
    have hbelow : SteadyBelow law (rule.measure s) (F k) (F' k') :=
      (ih (Nat.le_of_succ_le_succ hn) (Nat.le_of_succ_le_succ hn')).mono (Nat.le_of_lt_succ hs)
    exact (steady_body hbelow hlevel).of_eq (hF k rule s hlevel) (hF' k' rule s hlevel)

theorem steadyBelow_run (law : LevelLaw) (hn : m ≤ n) (hn' : m ≤ n') :
    SteadyBelow law m (run n) (run n') :=
  steadyBelow_of_isRunAt (isRunAt_run law) (isRunAt_run law) hn hn'

/-! ### The rules without a bound -/

/-- Two choices of readers that agree on all calls below a measure. -/
def AgreeBelow (m : Nat) (g g' : Grammar) : Prop :=
  ∀ (rule : Rule) (s : ParserState), rule.measure s < m → g' rule s = g rule s

/-- **A rule only depends on calls below its own measure.** -/
theorem body_eq_of_agreeBelow {rule : Rule} (hn : rule.measure s ≤ n)
    (hg : AgreeBelow (rule.measure s) (run n) g) : body g rule s = body (run n) rule s := by
  have hbelow : SteadyBelow .all (rule.measure s) (run n) g := fun rule' s' hs' hlevel =>
    (steadyBelow_run .all hn hn rule' s' hs' hlevel).of_eq rfl (hg rule' s' hs')
  have hlevel : LevelLaw.all.Allows rule s.level := by cases rule <;> trivial
  exact (steady_body hbelow hlevel).same

theorem run_eq_run {rule : Rule} (hn : rule.measure s < n) (hn' : rule.measure s < n') :
    run n' rule s = run n rule s := by
  have hlevel : LevelLaw.all.Allows rule s.level := by cases rule <;> trivial
  exact (steadyBelow_run .all hn hn' rule s (Nat.lt_succ_self _) hlevel).same

/-- **The rules without a bound:** a rule may call as many rules inside each other as there is room
for in the tokens left. -/
def total : Grammar :=
  fun rule s => run (rule.measure s + 1) rule s

theorem total_eq_run {rule : Rule} (hn : rule.measure s < n) : total rule s = run n rule s :=
  run_eq_run hn (Nat.lt_succ_self _)

/-- The rules without a bound satisfy their equations. -/
theorem body_total : body total = total := by
  funext rule s
  exact body_eq_of_agreeBelow (Nat.le_refl _) fun rule' s' hs' => total_eq_run hs'

/-- **Only one grammar satisfies the equations**, by recursion on the number of tokens left. -/
theorem eq_total (hg : body g = g) : g = total := by
  have hmeasure : ∀ m rule s, Rule.measure rule s < m → g rule s = total rule s := by
    intro m
    induction m with
    | zero => exact fun _ _ hs => absurd hs (Nat.not_lt_zero _)
    | succ m ih =>
      intro rule s hs
      -- the calls of the rule are below its measure, where the two grammars agree by induction
      have hagree : AgreeBelow (rule.measure s) (run (rule.measure s)) g := fun rule' s' hs' =>
        (ih rule' s' (Nat.lt_of_lt_of_le hs' (Nat.le_of_lt_succ hs))).trans (total_eq_run hs')
      calc g rule s = body g rule s := by rw [hg]
        _ = body (run (rule.measure s)) rule s := body_eq_of_agreeBelow (Nat.le_refl _) hagree
        _ = total rule s := rfl
  funext rule s
  exact hmeasure _ rule s (Nat.lt_succ_self _)

/-- Without a bound, and with one that suffices. -/
theorem steadyBelow_total (law : LevelLaw) (hn : m ≤ n) : SteadyBelow law m (run n) total :=
  fun rule s hs hlevel =>
    (steadyBelow_run law hn hn rule s hs hlevel).of_eq rfl (total_eq_run (Nat.lt_of_lt_of_le hs hn))

theorem steadyBelow_self (m : Nat) : SteadyBelow .all m total total :=
  fun rule s hs hlevel =>
    (steadyBelow_total .all (Nat.le_refl m) rule s hs hlevel).of_eq (total_eq_run hs) rfl

/-- From every state there is room for every call, if the bound is large enough. -/
theorem ready_all (s : ParserState) :
    Ready LevelLaw.all.stmt (4 * s.left + 4) (decide (s.level < 0)) 4 s :=
  ⟨trivial, rfl, Nat.le_refl _⟩

/-! ### Files -/

theorem steady_packageClause {allowed : Int → Prop} {c : Nat} (hs : Ready allowed m header c s) :
    Steady s packageClause packageClause (Takes s fun _ => True) := by
  refine .first hs steady_expect fun package s₁ hs₁ _ => ?_
  refine .bind hs₁ steady_ident fun name s₂ hs₂ _ => ?_
  exact steady_endStatement.seq fun _ _ _ _ => .pure trivial

/-- **The package clause and the declarations of a file.** -/
theorem steady_file (hg : SteadyBelow law m g g') {c : Nat} (hs : Ready law.stmt m header c s) :
    Steady s g.file g'.file (Takes s fun result =>
      ∀ d ∈ result.2.2, (Phrase.decl d).Derived) := by
  refine .first hs (steady_packageClause hs) fun ⟨package, name⟩ s₁ hs₁ _ => ?_
  have hdecls : Steady s₁ (untilKind (· == .endOfFile) (withEnd g.decl))
      (untilKind (· == .endOfFile) (withEnd g'.decl)) fun decls _ =>
        ∀ d ∈ decls, (Phrase.decl d).Derived :=
    steady_untilKind hs₁ fun s' hs' _ => steady_withEnd (steady_decl hg hs')
  exact hdecls.seq fun decls _ _ hdecls => .pure hdecls

end Grammar

/-! ### Texts -/

section

variable {t : Text}

/-- The state in which reading a text begins. -/
def ParserState.ofText (t : Text) : ParserState :=
  ⟨(TokenStream.ofText t).tokens, 0⟩

theorem parse_eq (t : Text) : parse t =
    match (Grammar.file (Grammar.run (Grammar.nesting (ParserState.ofText t).left))
      (ParserState.ofText t)).1 with
    | .ok (package, name, decls) =>
      .ok ⟨package, name, decls, commentGroups t (TokenStream.ofText t).comments, t.size⟩
    | .error e => .error e := rfl

/-- Reading a text is steady, at all levels or at those of Go files. -/
theorem steady_file_ofText (law : LevelLaw) (hlaw : law.stmt 0) {n : Nat} {g : Grammar}
    (hg : Grammar.SteadyBelow law (4 * (ParserState.ofText t).left + 4) (Grammar.run n) g) :
    Parser.Steady (ParserState.ofText t) (Grammar.run n).file g.file
      (Parser.Takes (ParserState.ofText t) fun result =>
        ∀ d ∈ result.2.2, (Phrase.decl d).Derived) :=
  Grammar.steady_file hg
    (⟨hlaw, rfl, Nat.le_refl _⟩ : Parser.Ready law.stmt _ false 4 (ParserState.ofText t))

theorem room_le_nesting (k : Nat) : 4 * k + 4 ≤ Grammar.nesting k := by
  unfold Grammar.nesting
  omega

theorem steady_parse (t : Text) :
    Parser.Steady (ParserState.ofText t)
      (Grammar.run (Grammar.nesting (ParserState.ofText t).left)).file Grammar.total.file
      (Parser.Takes (ParserState.ofText t) fun result =>
        ∀ d ∈ result.2.2, (Phrase.decl d).Derived) :=
  steady_file_ofText .all trivial
    (Grammar.steadyBelow_total .all (room_le_nesting _))

/-- **What is read from a text is a file of the grammar.** -/
theorem derived_of_parse {file : File} (h : parse t = .ok file) : file.Derived := by
  rw [parse_eq] at h
  split at h
  · rename_i package name decls hrun
    obtain rfl := Except.ok.inj h
    exact ((steady_parse t).ok _ hrun).2
  · simp at h

/-- The error of a text is that of reading its declarations. -/
theorem file_eq_error_of_parse {e : SyntaxError} (h : parse t = .error e) :
    ((Grammar.run (Grammar.nesting (ParserState.ofText t).left)).file
      (ParserState.ofText t)).1 = .error e := by
  rw [parse_eq] at h
  split at h
  · simp at h
  · rename_i hrun
    obtain rfl := Except.error.inj h
    exact hrun

/-- **No text meets a bound.** -/
theorem not_exhausted_of_parse {e : SyntaxError} (h : parse t = .error e) :
    e.cause ≠ .exhausted :=
  (steady_parse t).error e (file_eq_error_of_parse h)

end

end GoTree
