import GoTree.Proofs.Grammar.Expression
import GoTree.Proofs.Grammar.SteadyType

/-!
# Steady readers of expressions

One lemma for every rule of the grammar of expressions.  The loop over binary operators carries what
precedence climbing is about: whichever operator comes next, if it is read in this loop, then what
was read so far may stand to its left.

## Main results

* `Grammar.steady_literalBody`: the braces of a composite literal
* `Grammar.steady_unaryBody`: an operand with the operators before it
* `Grammar.steady_exprBody`: an expression
-/

namespace GoTree

namespace Grammar

open GoTree.Parser Phrase

/-! ### Blocks and function literals -/

theorem ne_rightBrace_of_endsStatements {kind : Token.Kind}
    (h : endsStatements.contains kind = false) : kind ≠ .symbol .rightBrace := by
  rintro rfl
  have hends : endsStatements.contains (.symbol .rightBrace) = true := by simp [endsStatements]
  simp [hends] at h

variable {law : LevelLaw} {m c : Nat} {header : Bool} {g g' : Grammar} {s : ParserState}
  (hg : SteadyBelow law m g g')

include hg

theorem steady_stmtList (hs : Ready law.stmt m header 4 s) :
    Steady s g.stmtList g'.stmtList fun list _ => ∀ stmt ∈ list, (Phrase.stmt stmt).Derived := by
  refine steady_untilKind hs fun s' hs' hstop => (hg.stmt hs').mono ?_
  exact fun stmt rest ⟨hstmt, hshorter⟩ =>
    ⟨hshorter (ne_rightBrace_of_endsStatements hstop), hstmt⟩

theorem steady_block (hs : Ready law.stmt m header c s) :
    Steady s g.block g'.block (Takes s fun b => (Phrase.block b).Derived) := by
  refine .first hs steady_expect fun lbrace s₁ hs₁ _ => ?_
  refine .bind hs₁ (steady_stmtList hg hs₁) fun list s₂ hs₂ hlist => ?_
  refine .bind hs₂ steady_expect fun rbrace s₃ hs₃ _ => ?_
  exact .pure (.block hlist)

theorem steady_funcTypeOrLit (hs : Ready law.expr m header c s) (least : Nat) :
    Steady s g.funcTypeOrLit g'.funcTypeOrLit
      (Takes s fun x => (Phrase.expr header least x).Derived) := by
  refine .first hs steady_expect fun func s₁ hs₁ _ => ?_
  refine .bind hs₁ (steady_signature hg hs₁ (some func)) ?_
  rintro ty s₂ hs₂ ⟨-, hty, hfunc⟩
  have hfunc : ty.func.isSome = true := by rw [hfunc]; rfl
  refine steady_isAt (fun _ => ?_) fun _ => .pure (.typeOperand (.funcType hty hfunc))
  have hbody : Steady s₂ (nested g.block) (nested g'.block) fun b _ => (Phrase.block b).Derived :=
    steady_nested hs₂ fun _ _ hs' => (steady_block hg hs').value
  exact hbody.seq fun body _ _ hb => .pure (.funcLit hty hfunc hb)

/-! ### What follows an operand -/

omit hg in
/-- An operand extended by what follows it: if the grammar has the one, it has the other. -/
def Follows (header : Bool) (x e : Expr) : Prop :=
  (Phrase.expr header (prefixLevel + 1) x).Derived →
    (Phrase.expr header (prefixLevel + 1) e).Derived

theorem steady_typeAssert {x : Expr} (hs : Ready law.expr m header c s) :
    Steady s (g.typeAssert x) (g'.typeAssert x) (Takes s (Follows header x)) := by
  refine .first hs steady_expect fun lparen s₁ hs₁ _ => ?_
  refine steady_eat hs₁ (fun s₂ hs₂ => ?_) ?_
  · refine .bind hs₂ steady_expect fun rparen s₃ hs₃ _ => ?_
    exact .pure fun hx => .typeAssert hx (by simp)
  · refine .bind hs₁ (steady_someType hg hs₁.mono) fun ty s₂ hs₂ hty => ?_
    refine .bind hs₂ steady_expect fun rparen s₃ hs₃ _ => ?_
    exact .pure fun hx => .typeAssert hx (by simpa using hty.2)

omit hg in
/-- What stands between the brackets after an operand of the grammar. -/
def Brackets.Derived (inside : Bool) : Brackets → Prop
  | .index i => (Phrase.expr inside 1 i).Derived
  | .slice low high max slice3 =>
    (∀ i ∈ low, (Phrase.expr inside 1 i).Derived) ∧
    (∀ i ∈ high, (Phrase.expr inside 1 i).Derived) ∧
    (∀ i ∈ max, (Phrase.expr inside 1 i).Derived) ∧
    (slice3 = false ∧ max = none ∨ slice3 = true ∧ high.isSome = true ∧ max.isSome = true)

theorem steady_sliceBound (hs : Ready law.expr m header 3 s) :
    Steady s g.sliceBound g'.sliceBound fun bound _ =>
      ∀ i ∈ bound, (Phrase.expr header 1 i).Derived := by
  refine steady_peekKind ?_
  split
  · exact .pure (by simp)
  · exact .pure (by simp)
  · exact (hg.expr hs).found.mono fun _ _ h i hi => (h i hi).2

theorem steady_sliceBounds {low : Option Expr} (hs : Ready law.expr m header 4 s) :
    Steady s (g.sliceBounds low) (g'.sliceBounds low) fun inner _ =>
      (∀ i ∈ low, (Phrase.expr header 1 i).Derived) → inner.Derived header := by
  refine .bind hs (steady_sliceBound hg hs.mono) fun high s₁ hs₁ hhigh => ?_
  refine steady_eat hs₁ (fun s₂ hs₂ => ?_) ?_
  · refine .bind hs₂ (steady_sliceBound hg hs₂.mono) fun max s₃ hs₃ hmax => ?_
    split
    · exact steady_fail nofun
    · rename_i hboth
      rw [Bool.or_eq_true, not_or, Option.isNone_iff_eq_none, Option.isNone_iff_eq_none] at hboth
      exact .pure fun hlow => ⟨hlow, hhigh, hmax, .inr
        ⟨rfl, Option.isSome_iff_ne_none.2 hboth.1, Option.isSome_iff_ne_none.2 hboth.2⟩⟩
  · exact .pure fun hlow => ⟨hlow, hhigh, by simp, .inl ⟨rfl, rfl⟩⟩

theorem steady_brackets (hs : Ready law.expr m header 4 s) :
    Steady s g.brackets g'.brackets fun inner _ => inner.Derived header := by
  refine steady_eat hs (fun s₁ hs₁ => ?_) ?_
  · exact (steady_sliceBounds hg hs₁).mono fun _ _ h => h (by simp)
  · refine .bind hs (hg.expr hs.mono) fun low s₁ hs₁ hlow => ?_
    refine steady_eat hs₁ (fun s₂ hs₂ => ?_) (.pure hlow.2)
    exact (steady_sliceBounds hg hs₂).mono fun _ _ h => h (by simpa using hlow.2)

theorem steady_indexOrSlice {x : Expr} (hs : Ready law.expr m header c s) :
    Steady s (g.indexOrSlice x) (g'.indexOrSlice x) (Takes s (Follows header x)) := by
  refine .first hs steady_expect fun lbrack s₁ hs₁ _ => ?_
  -- one level up the brackets may or may not be in a header: `inside` says which
  have hinner : Steady s₁ (nested g.brackets) (nested g'.brackets) fun inner _ =>
      ∃ inside, inner.Derived inside :=
    steady_nested hs₁ fun inside _ hs' =>
      (steady_brackets hg hs'.expr).mono fun _ _ h => ⟨inside, h⟩
  refine .bind hs₁ hinner fun inner s₂ hs₂ ⟨inside, hinside⟩ => ?_
  refine .bind hs₂ steady_expect fun rbrack s₃ hs₃ _ => ?_
  cases inner with
  | index i => exact .pure fun hx => .index hx hinside
  | slice low high max slice3 =>
    obtain ⟨hlow, hhigh, hmax, ⟨rfl, rfl⟩ | ⟨rfl, hsome, hsome'⟩⟩ := hinside
    · exact .pure fun hx => .slice hx hlow hhigh
    · obtain ⟨high, rfl⟩ := Option.isSome_iff_exists.1 hsome
      obtain ⟨max, rfl⟩ := Option.isSome_iff_exists.1 hsome'
      exact .pure fun hx => .fullSlice hx hlow (hhigh _ rfl) (hmax _ rfl)

theorem steady_argument (hs : Ready law.expr m header 3 s) :
    Steady s g.argument g'.argument (Takes s fun arg => (Phrase.expr header 1 arg.1).Derived) := by
  refine .first hs (hg.expr hs) fun x s₁ hs₁ hx => ?_
  refine steady_isAt (fun hdots => ?_) fun _ => .pure hx
  exact .bind hs₁ (steady_takePos hdots) fun pos s₂ hs₂ _ => .pure hx

theorem steady_call {callee : Expr} (hs : Ready law.expr m header c s) :
    Steady s (g.call callee) (g'.call callee) (Takes s (Follows header callee)) := by
  refine .first hs steady_expect fun lparen s₁ hs₁ _ => ?_
  have hargs : Steady s₁ (nested (commaList closesArguments g.argument))
      (nested (commaList closesArguments g'.argument)) fun args _ =>
        ∃ inside, ∀ arg ∈ args, (Phrase.expr inside 1 arg.1).Derived :=
    steady_nested hs₁ fun inside _ hs' =>
      (steady_commaList hs' fun _ hs'' => steady_argument hg hs''.mono.expr).mono
        fun _ _ h => ⟨inside, h.1⟩
  refine .bind hs₁ hargs fun args s₂ hs₂ ⟨inside, hinside⟩ => ?_
  have hargs : ∀ x ∈ args.map Prod.fst, (Phrase.expr inside 1 x).Derived := by
    intro x hx
    obtain ⟨arg, harg, rfl⟩ := List.mem_map.1 hx
    exact hinside arg harg
  refine .bind hs₂ steady_expect fun rparen s₃ hs₃ _ => ?_
  exact .pure fun hcallee => .call hcallee hargs

/-! ### Composite literals -/

theorem steady_elementValue (hs : Ready law.expr m header 3 s) :
    Steady s g.elementValue g'.elementValue (Takes s fun x => (Phrase.value x).Derived) := by
  refine steady_isAt (fun _ => ?_) fun _ => ?_
  · refine (hg.literal hs.mono none).mono ?_
    rintro _ rest ⟨hlt, lbrace, elts, rbrace, rfl, helts⟩
    exact ⟨hlt, .untypedLit helts⟩
  · exact (hg.expr hs).mono fun _ _ hx => ⟨hx.1, .value hx.2⟩

theorem steady_element (hs : Ready law.expr m header 3 s) :
    Steady s g.element g'.element (Takes s fun x => (Phrase.element x).Derived) := by
  refine .first hs (steady_elementValue hg hs) fun key s₁ hs₁ hkey => ?_
  refine steady_isAt (fun hcolon => ?_) fun _ => .pure (.element hkey)
  refine .bind hs₁ (steady_takePos hcolon) fun colon s₂ hs₂ _ => ?_
  refine .bind hs₂ (steady_elementValue hg hs₂.mono) fun value s₃ hs₃ hvalue => ?_
  exact .pure (.keyValue hkey hvalue.2)

/-- **The braces of a composite literal.** -/
theorem steady_literalBody (hs : Ready law.expr m header c s) (ty : Option Expr) :
    Steady s (g.literalBody ty) (g'.literalBody ty) (Takes s fun x => ∃ lbrace elts rbrace,
      x = .compositeLit ty lbrace elts rbrace ∧ ∀ e ∈ elts, (Phrase.element e).Derived) := by
  refine .first hs steady_expect fun lbrace s₁ hs₁ _ => ?_
  have helts : Steady s₁ (nested (commaList closesBraces g.element))
      (nested (commaList closesBraces g'.element)) fun elts _ =>
        ∀ e ∈ elts, (Phrase.element e).Derived :=
    steady_nested hs₁ fun _ _ hs' =>
      (steady_commaList hs' fun _ hs'' => steady_element hg hs''.mono.expr).mono fun _ _ h => h.1
  refine .bind hs₁ helts fun elts s₂ hs₂ helts => ?_
  refine .bind hs₂ steady_expect fun rbrace s₃ hs₃ _ => ?_
  exact .pure ⟨lbrace, elts, rbrace, rfl, helts⟩

/-! ### Operands -/

theorem steady_operand (hs : Ready law.expr m header 1 s) (least : Nat) :
    Steady s g.operand g'.operand (Takes s fun x => (Phrase.expr header least x).Derived) := by
  have htype : Steady s g.someType g'.someType
      (Takes s fun x => (Phrase.expr header least x).Derived) :=
    (steady_someType hg hs).mono fun _ _ h => ⟨h.1, .typeOperand h.2⟩
  refine steady_peekKind ?_
  split
  · exact .first hs steady_ident fun name s₁ hs₁ _ => .pure .ident
  · refine .first hs (P := fun _ => True) ?_ fun lit s₁ hs₁ _ => .pure .basicLit
    exact steady_basicLit.mono fun _ _ h => ⟨h.1, trivial⟩
  · refine .first hs (steady_takePos ‹_›) fun lparen s₁ hs₁ _ => ?_
    -- between parentheses the header around them does not matter
    have hinner : Steady s₁ (nested g.expr) (nested g'.expr) fun x _ =>
        ∃ inside, (Phrase.expr inside 1 x).Derived :=
      steady_nested hs₁ fun inside _ hs' => (hg.expr hs'.mono.expr).mono fun _ _ h => ⟨inside, h.2⟩
    refine .bind hs₁ hinner fun x s₂ hs₂ ⟨inside, hx⟩ => ?_
    refine .bind hs₂ steady_expect fun rparen s₃ hs₃ _ => ?_
    exact .pure (.paren hx)
  · exact steady_funcTypeOrLit hg hs least
  · exact htype
  · exact htype
  · exact htype
  · exact htype
  · exact htype
  · exact htype
  · exact steady_failExpected

theorem steady_selectorOrAssert {x : Expr} (hs : Ready law.expr m header c s) :
    Steady s (g.selectorOrAssert x) (g'.selectorOrAssert x) (Takes s (Follows header x)) := by
  refine steady_peekKind ?_
  split
  · exact .first hs steady_ident fun sel s₁ hs₁ _ => .pure .selector
  · exact steady_typeAssert hg hs
  · exact steady_failExpected

omit hg in
/-- Only whether the level is negative matters. -/
theorem isLiteralType_header (x : Expr) (hs : decide (s.level < 0) = header) :
    isLiteralType x (if header then -1 else 0) = isLiteralType x s.level := by
  have hlevel : (0 : Int) ≤ (if header then -1 else 0) ↔ 0 ≤ s.level := by
    cases header with
    | false => simpa using hs
    | true => simpa using hs
  unfold isLiteralType
  split <;> simp only [hlevel]

theorem steady_suffix {x : Expr} (hs : Ready law.expr m header 1 s) :
    Steady s (g.suffix x) (g'.suffix x) fun next rest =>
      ∀ e ∈ next, Takes s (Follows header x) e rest := by
  refine steady_peekKind ?_
  split
  · refine .firstFound hs (steady_take ‹_›) fun _ s₁ hs₁ _ => ?_
    exact (steady_selectorOrAssert hg hs₁).found.mono fun _ _ h e he => (h e he).2
  · exact (steady_indexOrSlice hg hs).found
  · exact (steady_call hg hs).found
  · refine steady_level ?_
    split
    · -- the level lets the brace begin a literal: at a negative one its type is no name
      rename_i hliteral
      rw [← isLiteralType_header x hs.header] at hliteral
      refine ((hg.literal hs (some x)).mono ?_).found
      rintro _ rest ⟨hlt, lbrace, elts, rbrace, rfl, helts⟩
      exact ⟨hlt, fun hx => .compositeLit hx hliteral helts⟩
    · exact .pure (by simp)
  · exact .pure (by simp)

/-- **An operand and all that follows it.** -/
theorem steady_primary (hs : Ready law.expr m header 1 s) :
    Steady s g.primary g'.primary
      (Takes s fun x => (Phrase.expr header (prefixLevel + 1) x).Derived) := by
  refine .first hs (steady_operand hg hs (prefixLevel + 1)) fun x s₁ hs₁ hx => ?_
  refine steady_extend (fun x _ => (Phrase.expr header (prefixLevel + 1) x).Derived) hs₁ hx ?_
  intro x s₂ hs₂ hx
  refine (steady_suffix hg hs₂.mono).mono fun next rest hnext => ?_
  cases next with
  | none => exact hx
  | some e => exact ⟨(hnext e rfl).1, (hnext e rfl).2 hx⟩

/-! ### Operators -/

/-- **An operand with the operators before it.** -/
theorem steady_unaryBody (hs : Ready law.expr m header 1 s) :
    Steady s g.unaryBody g'.unaryBody
      (Takes s fun x => (Phrase.expr header prefixLevel x).Derived) := by
  refine steady_peekKind (steady_peekSecond fun second => ?_)
  split
  · rename_i op hop
    refine .first hs (steady_takePos (kind_of_unaryOp? hop).1) fun opPos s₁ hs₁ _ => ?_
    refine .bind hs₁ (hg.operand hs₁.mono) fun x s₂ hs₂ hx => ?_
    exact .pure (.unary (Nat.le_refl _) hx.2)
  · refine steady_isAt (fun hstar => ?_) fun _ => ?_
    · refine .first hs (steady_takePos hstar) fun star s₁ hs₁ _ => ?_
      refine .bind hs₁ (hg.operand hs₁.mono) fun x s₂ hs₂ hx => ?_
      exact .pure (.star (Nat.le_refl _) hx.2)
    · exact (steady_primary hg hs).mono fun _ _ h => ⟨h.1, h.2.weaken (Nat.le_succ _)⟩

omit hg in
/-- **What precedence climbing keeps:** `x` is an expression, and whichever operator comes next and
binds tightly enough, `x` may stand to its left. -/
def Climbs (header : Bool) (least : Nat) (x : Expr) (rest : List Token) : Prop :=
  (least ≤ prefixLevel → (Phrase.expr header least x).Derived) ∧
  ∀ op, binaryOp? (nextKind rest) = some op → least ≤ op.precedence →
    (Phrase.expr header op.precedence x).Derived

omit hg in
theorem precedence_lt_prefixLevel (op : BinaryOp) : op.precedence < prefixLevel := by
  cases op <;> decide

omit hg in
theorem Climbs.of_unary {least : Nat} {x : Expr} {rest : List Token}
    (hx : (Phrase.expr header prefixLevel x).Derived) : Climbs header least x rest :=
  ⟨hx.weaken, fun op _ _ => hx.weaken (Nat.le_of_lt (precedence_lt_prefixLevel op))⟩

/-- One more operator and its right operand.  The operators of the right operand end where one
follows that binds no more tightly. -/
theorem steady_operation {least : Nat} {x : Expr} (hs : Ready law.expr m header c s) :
    Steady s (g.operation least x) (g'.operation least x)
      (Stepped s (fun e rest => Climbs header least x s.tokens → Climbs header least e rest)
        (NoOperator least)) := by
  refine steady_peekKind ?_
  split
  · rename_i op hop
    split
    · -- the operator is left to the expression around this one
      rename_i hloose
      refine .pure fun op' hop' => ?_
      have : op' = op := Option.some.inj (hop'.symm.trans hop)
      exact this ▸ hloose
    · rename_i htight
      rw [Nat.not_lt] at htight
      refine (steady_takePos (kind_of_binaryOp? hop).1).seq fun opPos s₁ h₁ hlt => ?_
      have hs₁ := hs.after h₁ hlt.1
      refine (hg.binary hs₁.mono (op.precedence + 1)).seq fun y s₂ h₂ ⟨hy, hnext⟩ => ?_
      -- the right operand has stopped before an operator that binds no more tightly than `op`,
      -- so that all of `x op y` is the left operand of what follows
      have hright := hy.2 (precedence_lt_prefixLevel op)
      refine .pure ⟨Nat.lt_of_le_of_lt h₂.left_le hlt.1, fun hx => ?_⟩
      have hleft := hx.2 op hop htight
      refine ⟨fun _ => .binary htight hleft hright, fun op' hop' _ => ?_⟩
      exact .binary (Nat.le_of_lt_succ (hnext op' hop')) hleft hright
  · rename_i hnone
    refine .pure fun op hop => ?_
    exact absurd (hop.symm.trans hnone) (by simp)

/-- **An expression**, after which no operator follows that binds tightly enough. -/
theorem steady_exprBody (hs : Ready law.expr m header 2 s) (least : Nat) :
    Steady s (g.exprBody least) (g'.exprBody least) fun x rest =>
      Takes s (fun x => least ≤ prefixLevel → (Phrase.expr header least x).Derived) x rest ∧
      NoOperator least rest := by
  refine (hg.operand hs).seq fun x s₁ h₁ ⟨hlt, hx⟩ => ?_
  -- the operand has taken a token, so the right operands may be read by the rule itself
  have hs₁ := hs.after h₁ hlt
  have hloop : Steady s₁ (extend (g.operation least) x) (extend (g'.operation least) x)
      fun x rest =>
        (least ≤ prefixLevel → (Phrase.expr header least x).Derived) ∧ NoOperator least rest := by
    refine steady_extend (Climbs header least) hs₁ (.of_unary hx) fun x s₂ hs₂ hx => ?_
    refine (steady_operation hg hs₂).mono fun next rest hnext => ?_
    cases next with
    | none => exact ⟨hx.1, hnext⟩
    | some e => exact ⟨hnext.1, hnext.2 hx⟩
  exact hloop.within.mono fun _ _ h => ⟨⟨Nat.lt_of_le_of_lt h.1 hlt, h.2.1⟩, h.2.2⟩

end Grammar

end GoTree
