import GoTree.Proofs.Grammar.Statement
import GoTree.Proofs.Grammar.SteadyExpression

/-!
# Steady readers of declarations and statements

One lemma for every rule of the grammar of declarations and of that of statements.  A statement
starts at the levels a law allows for statements; its header is read at level minus one, where a law
allows expressions.

## Main results

* `Grammar.steady_decl`: a top-level declaration
* `Grammar.steady_ifThenBody`, `Grammar.steady_stmtBody`: the recursive rules of statements
-/

namespace GoTree

namespace Grammar

open GoTree.Parser Phrase

variable {law : LevelLaw} {m c : Nat} {header : Bool} {g g' : Grammar} {s : ParserState}

/-! ### Specifications -/

theorem steady_importName : Steady s importName importName fun _ _ => True := by
  refine steady_peekKind ?_
  split
  · exact steady_ident.map fun _ _ _ => trivial
  · exact steady_nextPos.seq fun _ _ _ _ => .pure trivial
  · exact .pure trivial

theorem steady_importSpec :
    Steady s importSpec importSpec (Takes s fun spec => (Phrase.spec .imports spec).Derived) := by
  refine steady_importName.seq fun name s₁ h₁ _ => .since h₁ ?_
  refine steady_isAt (fun hstring => ?_) fun _ => steady_failExpected
  refine steady_basicLit.seq fun path s₂ h₂ ⟨hlt, hpath⟩ => ?_
  have hkind : path.kind = .string := by
    rw [hstring, Token.Kind.literal.injEq] at hpath
    exact hpath.symm
  exact .pure ⟨hlt, .importSpec hkind⟩

section

variable (hg : SteadyBelow law m g g')

include hg

theorem steady_specValues (hs : Ready law.expr m header 3 s) :
    Steady s g.specValues g'.specValues fun values _ =>
      ∀ x ∈ values, (Phrase.expr header 1 x).Derived := by
  refine steady_eat hs (fun s₁ hs₁ => ?_) (.pure (by simp))
  exact (steady_exprList hg hs₁.mono).mono fun _ _ h => h.2.2

theorem steady_valueSpec (hs : Ready law.expr m header c s) {kind : DeclKind}
    (hkind : kind = .constants ∨ kind = .variables) :
    Steady s (g.valueSpec kind) (g'.valueSpec kind)
      (Takes s fun spec => (Phrase.spec kind spec).Derived) := by
  refine .first hs (steady_identList hs) fun names s₁ hs₁ hnames => ?_
  refine .bind hs₁ (hg.type hs₁.mono) fun ty s₂ hs₂ hty => ?_
  refine .bind hs₂ (steady_specValues hg hs₂.mono) fun values s₃ hs₃ hvalues => ?_
  split
  · exact steady_failExpected
  · rename_i hvariable
    split
    · exact steady_failExpected
    · rename_i hconstant
      refine .pure (.valueSpec hkind hnames (fun x hx => (hty x hx).2) hvalues ?_ ?_)
      · intro hvar
        by_contra hneither
        simp_all
      · intro hconst hsome
        by_contra hempty
        simp_all

theorem steady_typeSpec (hs : Ready law.expr m header c s) :
    Steady s g.typeSpec g'.typeSpec (Takes s fun spec => (Phrase.spec .types spec).Derived) := by
  refine .first hs steady_ident fun name s₁ hs₁ _ => ?_
  refine steady_isAt (fun hassign => ?_) fun _ => ?_
  · refine .bind hs₁ (steady_takePos hassign) fun assign s₂ hs₂ _ => ?_
    refine .bind hs₂ (steady_someType hg hs₂.mono) fun ty s₃ hs₃ hty => ?_
    exact .pure (.typeSpec hty.2)
  · refine .bind hs₁ (steady_someType hg hs₁.mono) fun ty s₂ hs₂ hty => ?_
    exact .pure (.typeSpec hty.2)

theorem steady_spec (hs : Ready law.expr m header c s) : (kind : DeclKind) →
    Steady s (g.spec kind) (g'.spec kind) (Takes s fun spec => (Phrase.spec kind spec).Derived)
  | .imports => steady_importSpec
  | .constants => steady_valueSpec hg hs (.inl rfl)
  | .types => steady_typeSpec hg hs
  | .variables => steady_valueSpec hg hs (.inr rfl)

/-! ### Declarations -/

/-- A general declaration: even at the end of the text, where its keyword is missing, something is
taken before it succeeds. -/
theorem steady_genDecl (hs : Ready law.expr m header c s)
    (hopen : 4 ≤ c ∨ (current s).kind ≠ .endOfFile) (kind : DeclKind) :
    Steady s (g.genDecl kind) (g'.genDecl kind)
      (Takes s fun d => (Phrase.genDecl d).Derived ∧ d.kind = kind) := by
  refine steady_nextPos.seq fun tokPos s₁ h₁ hlt => .since h₁ ?_
  have hs₁ := hs.pass hopen h₁ hlt
  refine steady_isAt (fun hparen => ?_) fun _ => ?_
  · refine .first hs₁ (steady_takePos hparen) fun lparen s₂ hs₂ _ => ?_
    have hitem (s' : ParserState) (hs' : Ready law.expr m header 4 s') :=
      steady_withEnd (steady_spec hg hs' kind)
    refine .bind hs₂ (steady_untilKind hs₂ fun s' hs' _ => hitem s' hs') ?_
    intro specs s₃ hs₃ hspecs
    refine .bind hs₃ steady_expect fun rparen s₄ hs₄ _ => ?_
    exact .pure ⟨.groupedDecl hspecs, rfl⟩
  · refine .first hs₁ (steady_spec hg hs₁ kind) fun spec s₂ hs₂ hspec => ?_
    exact .pure ⟨.singleDecl hspec, rfl⟩

theorem steady_receiver (hs : Ready law.expr m header c s) :
    Steady s g.receiver g'.receiver fun recv _ =>
      ∀ list ∈ recv, (Phrase.parameters list).Derived := by
  refine steady_isAt (fun _ => ?_) fun _ => .pure (by simp)
  exact (steady_parameters hg hs).found.mono fun _ _ h list hlist => (h list hlist).2

theorem steady_funcBody (hs : Ready law.stmt m header c s) :
    Steady s g.funcBody g'.funcBody fun body _ => ∀ b ∈ body, (Phrase.block b).Derived := by
  refine steady_isAt (fun _ => ?_) fun _ => .pure (by simp)
  exact (steady_block hg hs).found.mono fun _ _ h b hb => (h b hb).2

theorem steady_funcDecl (hs : Ready law.stmt m header c s) :
    Steady s g.funcDecl g'.funcDecl (Takes s fun d => (Phrase.decl (.func d)).Derived) := by
  refine .first hs steady_expect fun func s₁ hs₁ _ => ?_
  refine .bind hs₁ (steady_receiver hg hs₁.expr) fun recv s₂ hs₂ hrecv => ?_
  refine .bind hs₂ steady_ident fun name s₃ hs₃ _ => ?_
  refine steady_isAt (fun _ => steady_fail nofun) fun _ => ?_
  refine .bind hs₃ (steady_signature hg hs₃.expr none) fun ty s₄ hs₄ ⟨_, hty, hfunc⟩ => ?_
  refine .bind hs₄ (steady_funcBody hg hs₄) fun body s₅ hs₅ hbody => ?_
  exact .pure (.funcDecl hrecv hty hfunc hbody)

omit hg in
theorem ne_endOfFile_of_declKind? {kind : Token.Kind} {d : DeclKind} (h : declKind? kind = some d) :
    kind ≠ .endOfFile := by
  rintro rfl
  simp [declKind?] at h

/-- **A top-level declaration.** -/
theorem steady_decl (hs : Ready law.stmt m header c s) :
    Steady s g.decl g'.decl (Takes s fun d => (Phrase.decl d).Derived) := by
  refine steady_isAt (fun _ => ?_) fun _ => ?_
  · exact (steady_funcDecl hg hs).mapTakes fun _ h => h
  · refine steady_peekKind ?_
    split
    · rename_i kind hkind
      have hopen := ne_endOfFile_of_declKind? hkind
      exact (steady_genDecl hg hs.expr (.inr hopen) kind).mapTakes fun _ h => .genDecl h.1
    · exact steady_failExpected

/-! ### Simple statements -/

omit hg in
theorem steady_assignTok? : Steady s assignTok? assignTok? fun tok _ =>
    ∀ a ∈ tok, assignOp? (current s).kind = some a.op := by
  refine steady_peekKind ?_
  split
  · rename_i op hop
    exact steady_nextPos.seq fun pos _ _ _ => .pure (by simpa using hop)
  · exact .pure (by simp)

omit hg in
/-- Expressions of the grammar. -/
def Operands (header : Bool) (list : List Expr) : Prop :=
  ∀ x ∈ list, (Phrase.expr header 1 x).Derived

theorem steady_assignment {lhs : List Expr} {tok : AssignTok} (hs : Ready law.expr m header 3 s) :
    Steady s (g.assignment lhs tok) (g'.assignment lhs tok) fun stmt _ =>
      Operands header lhs → (Phrase.simple header stmt).Derived :=
  .bind hs (steady_exprList hg hs) fun _ _ _ hrhs =>
    .pure fun hlhs => .assign hlhs hrhs.2.2 hrhs.2.1

omit hg in
/-- What a simple statement is: where labels are allowed, it may be labeled. -/
def SimpleOrLabeled (header labelOk : Bool) (stmt : Stmt) : Prop :=
  (Phrase.simple header stmt).Derived ∨ labelOk = true ∧ (Phrase.stmt stmt).Derived

omit hg in
theorem SimpleOrLabeled.stmt {labelOk : Bool} {stmt : Stmt}
    (h : SimpleOrLabeled header labelOk stmt) : (Phrase.stmt stmt).Derived :=
  h.elim .simple And.right

omit hg in
theorem SimpleOrLabeled.simple {stmt : Stmt} (h : SimpleOrLabeled header false stmt) :
    (Phrase.simple header stmt).Derived :=
  h.resolve_right (by simp)

theorem steady_afterExpr {labelOk : Bool} {x : Expr}
    (hs : Ready (law.simple labelOk) m header 4 s) :
    Steady s (g.afterExpr labelOk x) (g'.afterExpr labelOk x) fun stmt _ =>
      (Phrase.expr header 1 x).Derived → SimpleOrLabeled header labelOk stmt := by
  refine steady_peekKind ?_
  split
  · split
    · rename_i hcolon hlabel
      subst hlabel
      refine .bind hs.stmtOfSimple (steady_takePos ‹_›) fun colon s₁ hs₁ _ => ?_
      refine .bind hs₁ (hg.stmt hs₁) fun stmt s₂ hs₂ hstmt => ?_
      exact .pure fun _ => .inr ⟨rfl, .labeled hstmt.1⟩
    · exact .pure fun hx => .inl (.exprStmt hx)
  · refine .bind hs (steady_takePos ‹_›) fun arrow s₁ hs₁ _ => ?_
    refine .bind hs₁ (hg.expr hs₁.exprOfSimple.mono) fun value s₂ hs₂ hvalue => ?_
    exact .pure fun hx => .inl (.send hx hvalue.2)
  · exact (steady_takePos ‹_›).seq fun _ _ _ _ => .pure fun hx => .inl (.step hx)
  · exact (steady_takePos ‹_›).seq fun _ _ _ _ => .pure fun hx => .inl (.step hx)
  · exact .pure fun hx => .inl (.exprStmt hx)

theorem steady_afterExprs {labelOk : Bool} {lhs : List Expr}
    (hs : Ready (law.simple labelOk) m header 4 s) :
    Steady s (g.afterExprs labelOk lhs) (g'.afterExprs labelOk lhs) fun stmt _ =>
      Operands header lhs → SimpleOrLabeled header labelOk stmt := by
  unfold afterExprs
  split
  · exact (steady_afterExpr hg hs).mono fun _ _ h hlhs => h (hlhs _ (List.mem_singleton_self _))
  · exact steady_failExpected

/-- **A simple statement**, or a labeled one where labels are allowed. -/
theorem steady_simple {labelOk : Bool} (hs : Ready (law.simple labelOk) m header 3 s) :
    Steady s (g.simple labelOk) (g'.simple labelOk) (Takes s (SimpleOrLabeled header labelOk)) := by
  refine .first hs (steady_exprList hg hs.exprOfSimple) fun lhs s₁ hs₁ ⟨_, hlhs⟩ => ?_
  refine .bind hs₁ steady_assignTok? fun tok s₂ hs₂ _ => ?_
  cases tok with
  | some tok =>
    exact (steady_assignment hg hs₂.exprOfSimple.mono).mono fun _ _ h => .inl (h hlhs)
  | none => exact (steady_afterExprs hg hs₂).mono fun _ _ h => h hlhs

theorem steady_plainSimple (hs : Ready law.expr m header 3 s) :
    Steady s (g.simple false) (g'.simple false)
      (Takes s fun stmt => (Phrase.simple header stmt).Derived) :=
  (steady_simple hg hs.simpleOfExpr).mono fun _ _ h => ⟨h.1, h.2.simple⟩

/-! ### Calls, jumps and returns -/

theorem steady_startedCall (hs : Ready law.expr m header 3 s) (keyword : Keyword) :
    Steady s (g.startedCall keyword) (g'.startedCall keyword) (Takes s fun x =>
      (Phrase.expr header 1 x).Derived ∧
      ∃ callee lparen args dots rparen, x.unparen = .call callee lparen args dots rparen) := by
  refine .first hs (hg.expr hs) fun x s₁ hs₁ hx => ?_
  split
  · rename_i hcall
    exact .pure ⟨hx, _, _, _, _, _, hcall⟩
  · exact steady_failAt nofun

omit hg in
theorem steady_branchLabel : Steady s branchLabel branchLabel fun _ _ => True :=
  steady_isAt (fun _ => steady_ident.map fun _ _ _ => trivial) fun _ => .pure trivial

omit hg in
theorem steady_branchStmt (kind : Branch) : Steady s (branchStmt kind) (branchStmt kind)
    fun stmt rest => ((current s).kind ≠ .endOfFile → rest.length < s.left) ∧
      (Phrase.stmt stmt).Derived := by
  refine steady_nextPos.seq fun tokPos s₁ _ hlt => ?_
  have hlabeled : Steady s₁ (do
      let label ← branchLabel
      pure (.branch tokPos kind label)) (do
      let label ← branchLabel
      pure (.branch tokPos kind label)) fun stmt _ => (Phrase.stmt stmt).Derived :=
    steady_branchLabel.seq fun _ _ _ _ => .pure .branch
  cases kind with
  | fallThrough => exact .pure ⟨hlt, .branch⟩
  | _ =>
    exact hlabeled.within.mono fun _ _ h => ⟨fun hkind => Nat.lt_of_le_of_lt h.1 (hlt hkind), h.2⟩

theorem steady_returnResults (hs : Ready law.expr m header 3 s) :
    Steady s g.returnResults g'.returnResults fun results _ =>
      ∀ x ∈ results, (Phrase.expr header 1 x).Derived := by
  refine steady_peekKind ?_
  split
  · exact .pure (by simp)
  · exact .pure (by simp)
  · exact (steady_exprList hg hs).mono fun _ _ h => h.2.2

/-! ### Conditionals -/

omit hg in
/-- Simple statements of the grammar, where there is one. -/
def Simple? (header : Bool) (part : Option Stmt) : Prop :=
  ∀ stmt ∈ part, (Phrase.simple header stmt).Derived

omit hg in
theorem simple?_none : Simple? header none := by
  simp [Simple?]

omit hg in
theorem simple?_some {stmt : Stmt} (h : (Phrase.simple header stmt).Derived) :
    Simple? header (some stmt) := by
  simpa [Simple?] using h

omit hg in
/-- The header of an `if` of the grammar. -/
def IfHeader (header : Bool) (parts : Option Stmt × Expr) : Prop :=
  Simple? header parts.1 ∧ (Phrase.expr header 1 parts.2).Derived

omit hg in
/-- The expression of an expression statement, as the condition of an `if`. -/
theorem steady_condition {init : Option Stmt} {stmt : Stmt} :
    Steady s (match stmt with
      | .expr cond => pure (init, cond)
      | _ => failExpected .booleanExpression) (match stmt with
      | .expr cond => pure (init, cond)
      | _ => failExpected .booleanExpression) fun parts _ =>
        Simple? header init → (Phrase.simple header stmt).Derived → IfHeader header parts := by
  split
  · refine .pure fun hinit hstmt => ⟨hinit, ?_⟩
    cases hstmt with
    | exprStmt hcond => exact hcond
  · exact steady_failExpected

theorem steady_conditionAfter {init : Option Stmt} (hs : Ready law.expr m header 4 s) :
    Steady s (g.conditionAfter init) (g'.conditionAfter init) fun parts _ =>
      Simple? header init → IfHeader header parts := by
  refine steady_isAt (fun _ => steady_fail nofun) fun _ => ?_
  refine .bind hs (steady_plainSimple hg hs.mono) fun stmt s₁ _ hstmt => ?_
  exact steady_condition.mono fun _ _ h hinit => h hinit hstmt.2

theorem steady_ifHeader (hs : Ready law.expr m header 4 s) :
    Steady s g.ifHeader g'.ifHeader fun parts _ => IfHeader header parts := by
  refine steady_eat hs (fun s₁ hs₁ => ?_) ?_
  · exact (steady_conditionAfter hg hs₁).mono fun _ _ h => h simple?_none
  · refine .bind hs (steady_plainSimple hg hs.mono) fun stmt s₁ hs₁ hstmt => ?_
    refine steady_eat hs₁ (fun s₂ hs₂ => ?_) ?_
    · exact (steady_conditionAfter hg hs₂).mono fun _ _ h => h (simple?_some hstmt.2)
    · exact steady_condition.mono fun _ _ h => h simple?_none hstmt.2

theorem steady_elseBranch (hs : Ready law.stmt m header 4 s) :
    Steady s g.elseBranch g'.elseBranch fun orElse _ =>
      ∀ stmt ∈ orElse, (Phrase.elseBranch stmt).Derived := by
  refine steady_eat hs (fun s₁ hs₁ => ?_) (steady_endStatement.seq fun _ _ _ _ => .pure (by simp))
  refine steady_peekKind ?_
  split
  · exact (hg.ifThen hs₁.mono).found.mono fun _ _ h stmt hstmt => .elseIf (h stmt hstmt).2
  · refine .bind hs₁ (steady_withEnd (steady_block hg hs₁)) fun b s₂ hs₂ hb => ?_
    exact .pure (by simpa using .elseBlock hb.2)
  · exact steady_fail nofun

/-- **An `if` statement** with its end. -/
theorem steady_ifThenBody (hs : Ready law.stmt m header c s) :
    Steady s g.ifThenBody g'.ifThenBody
      (Takes s fun stmt => (Phrase.ifThen stmt).Derived) := by
  refine .first hs steady_expect fun pos s₁ hs₁ _ => ?_
  refine steady_isAt (fun _ => steady_fail nofun) fun _ => ?_
  refine .bind hs₁ (steady_header hs₁ fun s' hs' => steady_ifHeader hg hs') ?_
  rintro ⟨init, cond⟩ s₂ hs₂ ⟨hinit, hcond⟩
  refine .bind hs₂ (steady_block hg hs₂) fun body s₃ hs₃ hbody => ?_
  refine .bind hs₃ (steady_elseBranch hg hs₃) fun orElse s₄ hs₄ horElse => ?_
  exact .pure (.ifThen hinit hcond hbody.2 horElse)

/-! ### Switches and selects -/

omit hg in
/-- The header of a switch of the grammar. -/
def SwitchHeader (header : Bool) (parts : Option Stmt × Option Stmt) : Prop :=
  Simple? header parts.1 ∧ Simple? header parts.2

theorem steady_switchTag {init : Option Stmt} (hs : Ready law.expr m header 4 s) :
    Steady s (switchHeader.switchTag g init) (switchHeader.switchTag g' init) fun parts _ =>
      Simple? header init → SwitchHeader header parts := by
  refine steady_isAt (fun _ => .pure fun hinit => ⟨hinit, simple?_none⟩) fun _ => ?_
  refine .bind hs (steady_plainSimple hg hs.mono) fun tag s₁ hs₁ htag => ?_
  exact .pure fun hinit => ⟨hinit, simple?_some htag.2⟩

theorem steady_switchHeader (hs : Ready law.expr m header 4 s) :
    Steady s g.switchHeader g'.switchHeader fun parts _ => SwitchHeader header parts := by
  refine steady_eat hs (fun s₁ hs₁ => ?_) ?_
  · exact (steady_switchTag hg hs₁).mono fun _ _ h => h simple?_none
  · refine .bind hs (steady_plainSimple hg hs.mono) fun first s₁ hs₁ hfirst => ?_
    have hsome := simple?_some hfirst.2
    refine steady_eat hs₁ (fun s₂ hs₂ => ?_) (.pure ⟨simple?_none, hsome⟩)
    exact (steady_switchTag hg hs₂).mono fun _ _ h => h hsome

theorem steady_caseValues (hs : Ready law.expr m header 3 s) (isCase : Bool) :
    Steady s (g.caseValues isCase) (g'.caseValues isCase) fun list _ =>
      ∀ x ∈ list, (Phrase.expr header 1 x).Derived := by
  cases isCase with
  | true => exact (steady_exprList hg hs).mono fun _ _ h => h.2.2
  | false => exact .pure (by simp)

theorem steady_caseClause (hs : Ready law.stmt m header 4 s) :
    Steady s g.caseClause g'.caseClause fun clause rest =>
      ((current s).kind ≠ .endOfFile → rest.length < s.left) ∧
      (Phrase.caseClause clause).Derived := by
  refine steady_isAt_any fun isCase => ?_
  refine .pass hs (.inl (Nat.le_refl _)) fun pos s₁ hs₁ => ?_
  refine .bind hs₁ (steady_caseValues hg hs₁.mono.expr isCase) fun list s₂ hs₂ hlist => ?_
  refine .bind hs₂ steady_expect fun colon s₃ hs₃ _ => ?_
  refine .bind hs₃ (steady_stmtList hg hs₃) fun body s₄ hs₄ hbody => ?_
  exact .pure (.caseClause hlist hbody)

omit hg in
theorem ne_endOfFile_of_endsClauses {kind : Token.Kind} (h : endsClauses kind = false) :
    kind ≠ .endOfFile := by
  rcases kind_of_endsClauses h with rfl | rfl
  · nofun
  · nofun

theorem steady_caseBlock (hs : Ready law.stmt m header c s) :
    Steady s g.caseBlock g'.caseBlock (Takes s fun b => (Phrase.caseBlock b).Derived) := by
  refine .first hs steady_expect fun lbrace s₁ hs₁ _ => ?_
  have hclauses : Steady s₁ (untilKind endsClauses g.caseClause)
      (untilKind endsClauses g'.caseClause) fun clauses _ =>
        ∀ clause ∈ clauses, (Phrase.caseClause clause).Derived :=
    steady_untilKind hs₁ fun s' hs' hstop => (steady_caseClause hg hs').mono fun _ _ h =>
      ⟨h.1 (ne_endOfFile_of_endsClauses hstop), h.2⟩
  refine .bind hs₁ hclauses fun clauses s₂ hs₂ hclauses => ?_
  refine .bind hs₂ steady_expect fun rbrace s₃ hs₃ _ => ?_
  exact .pure (.caseBlock hclauses)

omit hg in
theorem steady_makeSwitch {pos : Offset} {init tag : Option Stmt} {body : CaseBlock} :
    Steady s (makeSwitch pos init tag body) (makeSwitch pos init tag body) fun stmt _ =>
      SwitchHeader true (init, tag) → (Phrase.caseBlock body).Derived →
        (Phrase.stmt stmt).Derived := by
  unfold makeSwitch
  split
  · exact .pure fun hparts hbody => .switch hparts.1 (by simp) hbody
  · rename_i guard
    split
    · rename_i hguard
      exact .pure fun hparts hbody => .typeSwitch hparts.1 (hparts.2 guard rfl) hguard hbody
    · split
      · refine .pure fun hparts hbody => .switch hparts.1 ?_ hbody
        cases hparts.2 _ rfl with
        | exprStmt hx => simpa using hx
      · exact steady_failAt nofun

theorem steady_switchStmt (hs : Ready law.stmt m header c s) :
    Steady s g.switchStmt g'.switchStmt (Takes s fun stmt => (Phrase.stmt stmt).Derived) := by
  refine .first hs steady_expect fun pos s₁ hs₁ _ => ?_
  have hbody (s₂ : ParserState) (head : Option Stmt × Option Stmt)
      (hs₂ : Ready law.stmt m header 4 s₂) (hhead : SwitchHeader true head) : Steady s₂ (do
        let body ← withEnd g.caseBlock
        makeSwitch pos head.1 head.2 body) (do
        let body ← withEnd g'.caseBlock
        makeSwitch pos head.1 head.2 body) fun stmt _ => (Phrase.stmt stmt).Derived :=
    .bind hs₂ (steady_withEnd (steady_caseBlock hg hs₂)) fun _ _ _ hbody =>
      steady_makeSwitch.mono fun _ _ h => h hhead hbody.2
  refine steady_isAt (fun _ => ?_) fun _ => ?_
  · exact hbody s₁ (none, none) hs₁ ⟨simple?_none, simple?_none⟩
  · exact .bind hs₁ (steady_header hs₁ fun s' hs' => steady_switchHeader hg hs')
      fun head s₂ hs₂ hhead => hbody s₂ head hs₂ hhead

theorem steady_clauseComm (hs : Ready law.expr m header 3 s) (isCase : Bool) :
    Steady s (g.clauseComm isCase) (g'.clauseComm isCase) fun comm _ =>
      Simple? header comm := by
  cases isCase with
  | true => exact (steady_plainSimple hg hs).found.mono fun _ _ h stmt hstmt => (h stmt hstmt).2
  | false => exact .pure simple?_none

theorem steady_commClause (hs : Ready law.stmt m header 4 s) :
    Steady s g.commClause g'.commClause fun clause rest =>
      ((current s).kind ≠ .endOfFile → rest.length < s.left) ∧
      (Phrase.commClause clause).Derived := by
  refine steady_isAt_any fun isCase => ?_
  refine .pass hs (.inl (Nat.le_refl _)) fun pos s₁ hs₁ => ?_
  refine .bind hs₁ (steady_clauseComm hg hs₁.mono.expr isCase) fun comm s₂ hs₂ hcomm => ?_
  refine .bind hs₂ steady_expect fun colon s₃ hs₃ _ => ?_
  refine .bind hs₃ (steady_stmtList hg hs₃) fun body s₄ hs₄ hbody => ?_
  exact .pure (.commClause hcomm hbody)

theorem steady_selectStmt (hs : Ready law.stmt m header c s) :
    Steady s g.selectStmt g'.selectStmt (Takes s fun stmt => (Phrase.stmt stmt).Derived) := by
  refine .first hs steady_expect fun pos s₁ hs₁ _ => ?_
  refine .bind hs₁ steady_expect fun lbrace s₂ hs₂ _ => ?_
  have hclauses : Steady s₂ (untilKind endsClauses g.commClause)
      (untilKind endsClauses g'.commClause) fun clauses _ =>
        ∀ clause ∈ clauses, (Phrase.commClause clause).Derived :=
    steady_untilKind hs₂ fun s' hs' hstop => (steady_commClause hg hs').mono fun _ _ h =>
      ⟨h.1 (ne_endOfFile_of_endsClauses hstop), h.2⟩
  refine .bind hs₂ hclauses fun clauses s₃ hs₃ hclauses => ?_
  refine .bind hs₃ steady_expect fun rbrace s₄ hs₄ _ => ?_
  exact .pure (.select hclauses)

/-! ### Loops -/

omit hg in
/-- The header of a loop of the grammar. -/
def LoopHeader.Derived (header : Bool) : LoopHeader → Prop
  | .clauses init cond post => Simple? header init ∧ Simple? header cond ∧ Simple? header post
  | .range lhs tok x =>
    Operands header lhs ∧ (Phrase.expr header 1 x).Derived ∧ tok.isSome = !lhs.isEmpty ∧
    ∀ a ∈ tok, a.op = .define ∨ a.op = .assign

omit hg in
/-- The start of the header of a loop of the grammar. -/
def LoopStart (header : Bool) : Stmt ⊕ LoopHeader → Prop
  | .inl first => (Phrase.simple header first).Derived
  | .inr head => head.Derived header

theorem steady_loopStart (hs : Ready law.expr m header 4 s) :
    Steady s g.loopStart g'.loopStart fun start _ => LoopStart header start := by
  refine steady_eat hs (fun s₁ hs₁ => ?_) ?_
  · -- a loop over a range without variables
    refine .bind hs₁ (hg.expr hs₁.mono) fun x s₂ hs₂ hx => ?_
    exact .pure ⟨by simp [Operands], hx.2, rfl, by simp⟩
  · refine .bind hs (steady_exprList hg hs.mono) fun lhs s₁ hs₁ ⟨_, hne, hlhs⟩ => ?_
    refine .bind hs₁ steady_assignTok? fun tok s₂ hs₂ _ => ?_
    cases tok with
    | none =>
      refine (steady_afterExprs hg hs₂.simpleOfExpr).map fun stmt _ hstmt => ?_
      exact (hstmt hlhs).simple
    | some tok =>
      have hassign : Steady s₂ (.inl <$> g.assignment lhs tok) (.inl <$> g'.assignment lhs tok)
          fun start _ => LoopStart header start :=
        (steady_assignment hg hs₂.mono).map fun _ _ h => h hlhs
      refine steady_isAt (fun hrange => ?_) fun _ => ?_
      · split
        · -- behind an operator for variables the range is one expression
          rename_i hop
          refine .bind hs₂ (steady_take hrange) fun _ s₃ hs₃ _ => ?_
          refine .bind hs₃ (hg.expr hs₃.mono) fun x s₄ hs₄ hx => ?_
          refine .pure ⟨hlhs, hx.2, ?_, by simpa using hop⟩
          rw [List.isEmpty_eq_false_iff.2 hne]
          rfl
        · exact hassign
      · rw [Bool.and_false, if_neg Bool.false_ne_true]
        exact hassign

theorem steady_loopCondition (hs : Ready law.expr m header 4 s) :
    Steady s g.loopCondition g'.loopCondition fun cond _ => Simple? header cond :=
  steady_isAt (fun _ => .pure simple?_none) fun _ =>
    (steady_plainSimple hg hs.mono).found.mono fun _ _ h stmt hstmt => (h stmt hstmt).2

theorem steady_loopPost (hs : Ready law.expr m header 4 s) :
    Steady s g.loopPost g'.loopPost fun post _ => Simple? header post :=
  steady_isAt (fun _ => .pure simple?_none) fun _ =>
    (steady_plainSimple hg hs.mono).found.mono fun _ _ h stmt hstmt => (h stmt hstmt).2

theorem steady_loopClauses {init : Option Stmt} (hs : Ready law.expr m header 4 s) :
    Steady s (g.loopClauses init) (g'.loopClauses init) fun head _ =>
      Simple? header init → head.Derived header := by
  refine .bind hs (steady_loopCondition hg hs) fun cond s₁ hs₁ hcond => ?_
  refine .bind hs₁ steady_expect fun _ s₂ hs₂ _ => ?_
  refine .bind hs₂ (steady_loopPost hg hs₂) fun post s₃ hs₃ hpost => ?_
  exact .pure fun hinit => ⟨hinit, hcond, hpost⟩

theorem steady_loopHeader (hs : Ready law.expr m header 4 s) :
    Steady s g.loopHeader g'.loopHeader fun head _ => head.Derived header := by
  refine steady_eat hs (fun s₁ hs₁ => ?_) ?_
  · exact (steady_loopClauses hg hs₁).mono fun _ _ h => h simple?_none
  · refine .bind hs (steady_loopStart hg hs) fun start s₁ hs₁ hstart => ?_
    cases start with
    | inr range => exact .pure hstart
    | inl first =>
      have hsome := simple?_some hstart
      refine steady_eat hs₁ (fun s₂ hs₂ => ?_) (.pure ⟨simple?_none, hsome, simple?_none⟩)
      exact (steady_loopClauses hg hs₂).mono fun _ _ h => h hsome

omit hg in
theorem steady_makeLoop {pos : Offset} {head : LoopHeader} {body : Block} :
    Steady s (makeLoop pos head body) (makeLoop pos head body) fun stmt _ =>
      head.Derived true → (Phrase.block body).Derived → (Phrase.stmt stmt).Derived := by
  unfold makeLoop
  split
  · refine .pure fun ⟨_, hx, htok, hop⟩ hbody => ?_
    exact .rangeLoop (by simp) (by simp) hx hbody htok (by simp) hop
  · refine .pure fun ⟨hlhs, hx, htok, hop⟩ hbody => ?_
    exact .rangeLoop (by simpa [Operands] using hlhs) (by simp) hx hbody htok (by simp) hop
  · refine .pure fun ⟨hlhs, hx, htok, hop⟩ hbody => ?_
    rw [Operands, List.forall_mem_cons, List.forall_mem_singleton] at hlhs
    exact .rangeLoop (by simpa using hlhs.1) (by simpa using hlhs.2) hx hbody htok (by simp) hop
  · exact steady_failAt nofun
  · exact .pure fun ⟨hinit, _, hpost⟩ hbody => .forLoop hinit (by simp) hpost hbody
  · refine .pure fun ⟨hinit, hcond, hpost⟩ hbody => ?_
    cases hcond _ rfl with
    | exprStmt hx => exact .forLoop hinit (by simpa using hx) hpost hbody
  · exact steady_failExpected

theorem steady_loop (hs : Ready law.stmt m header c s) :
    Steady s g.loop g'.loop (Takes s fun stmt => (Phrase.stmt stmt).Derived) := by
  refine .first hs steady_expect fun pos s₁ hs₁ _ => ?_
  have hbody (s₂ : ParserState) (head : LoopHeader) (hs₂ : Ready law.stmt m header 4 s₂)
      (hhead : head.Derived true) : Steady s₂ (do
        let body ← g.block
        makeLoop pos head body) (do
        let body ← g'.block
        makeLoop pos head body) fun stmt _ => (Phrase.stmt stmt).Derived :=
    .bind hs₂ (steady_block hg hs₂) fun _ _ _ hbody =>
      steady_makeLoop.mono fun _ _ h => h hhead hbody.2
  refine steady_isAt (fun _ => ?_) fun _ => ?_
  · exact hbody s₁ (.clauses none none none) hs₁ ⟨simple?_none, simple?_none, simple?_none⟩
  · exact .bind hs₁ (steady_header hs₁ fun s' hs' => steady_loopHeader hg hs')
      fun head s₂ hs₂ hhead => hbody s₂ head hs₂ hhead

/-! ### Statements -/

theorem steady_exprStmt (hs : Ready law.stmt m header 3 s) :
    Steady s g.exprStmt g'.exprStmt (Takes s fun stmt => (Phrase.stmt stmt).Derived) := by
  refine .first hs (steady_simple hg hs.simpleOfStmt) fun stmt s₁ hs₁ hstmt => ?_
  split
  · exact .pure hstmt.stmt
  · exact steady_endStatement.seq fun _ _ _ _ => .pure hstmt.stmt

/-- A statement that starts with a keyword; at the end of the text, where its keyword is missing, a
jump takes nothing. -/
theorem steady_keywordStmt (hs : Ready law.stmt m header c s)
    (hopen : 4 ≤ c ∨ (current s).kind ≠ .endOfFile) (word : Keyword) :
    Steady s (g.keywordStmt word) (g'.keywordStmt word) fun stmt rest =>
      ((current s).kind ≠ .endOfFile → rest.length < s.left) ∧ (Phrase.stmt stmt).Derived := by
  -- imports are declared outside of functions only
  have hdecl : ∀ kind, kind ≠ .imports →
      Steady s (Stmt.decl <$> g.genDecl kind) (Stmt.decl <$> g'.genDecl kind) fun stmt rest =>
        ((current s).kind ≠ .endOfFile → rest.length < s.left) ∧ (Phrase.stmt stmt).Derived := by
    intro kind hkind
    refine (steady_genDecl hg hs.expr hopen kind).map fun d rest ⟨hlt, hd, hdkind⟩ => ?_
    exact ⟨fun _ => hlt, .declStmt hd (hdkind ▸ hkind)⟩
  unfold keywordStmt
  split
  · exact hdecl _ nofun
  · exact hdecl _ nofun
  · exact hdecl _ nofun
  · refine .pass hs hopen fun pos s₁ hs₁ => ?_
    refine .bind hs₁ (steady_startedCall hg hs₁.mono.expr .goKw) ?_
    intro x s₂ hs₂ ⟨_, hx, hcall⟩
    exact .pure (.goCall hx hcall)
  · refine .pass hs hopen fun pos s₁ hs₁ => ?_
    refine .bind hs₁ (steady_startedCall hg hs₁.mono.expr .deferKw) ?_
    intro x s₂ hs₂ ⟨_, hx, hcall⟩
    exact .pure (.deferCall hx hcall)
  · refine .pass hs hopen fun pos s₁ hs₁ => ?_
    refine .bind hs₁ (steady_returnResults hg hs₁.mono.expr) fun results s₂ hs₂ hresults => ?_
    exact .pure (.returns hresults)
  · exact steady_branchStmt .breakOut
  · exact steady_branchStmt .continueOn
  · exact steady_branchStmt .goto
  · exact steady_branchStmt .fallThrough
  · exact (steady_selectStmt hg hs).mono fun _ _ h => ⟨fun _ => h.1, h.2⟩
  · exact (steady_loop hg hs).mono fun _ _ h => ⟨fun _ => h.1, h.2⟩
  · exact steady_failExpected

omit hg in
theorem steady_emptyStmt : Steady s emptyStmt emptyStmt fun stmt rest =>
    ((current s).kind ≠ .endOfFile → rest.length < s.left) ∧ (Phrase.stmt stmt).Derived :=
  steady_next.seq fun _ _ _ h => .pure ⟨h.2, .empty⟩

omit hg in
/-- Before a closing brace there is an empty statement, which takes nothing. -/
theorem stmtBody_rightBrace (g : Grammar) (h : (current s).kind = .symbol .rightBrace) :
    g.stmtBody s = (.ok (.empty ⟨(current s).start, true⟩), s) := by
  have hpeek : peek s = (.ok (current s), s) := rfl
  rw [stmtBody, bind_apply, hpeek]
  simp only [h]
  rfl

/-- **A statement** with its end; one left out before a closing brace takes nothing. -/
theorem steady_stmtBody (hs : Ready law.stmt m header 3 s) :
    Steady s g.stmtBody g'.stmtBody fun stmt rest => (Phrase.stmt stmt).Derived ∧
      ((current s).kind ≠ .symbol .rightBrace → rest.length < s.left) := by
  refine steady_peek ?_
  split
  · exact (hg.ifThen hs.mono).mono fun _ _ h => ⟨.ifStmt h.2, fun _ => h.1⟩
  · exact (steady_switchStmt hg hs).mono fun _ _ h => ⟨h.2, fun _ => h.1⟩
  · rename_i hsemicolon
    refine steady_emptyStmt.mono fun _ _ h => ⟨h.2, fun _ => h.1 ?_⟩
    simp [hsemicolon]
  · rename_i hbrace
    exact .pure ⟨.empty, fun h => absurd hbrace h⟩
  · refine (steady_withEnd (steady_block hg hs)).map fun _ _ h => ⟨.blockStmt h.2, fun _ => h.1⟩
  · split
    · exact (steady_exprStmt hg hs).mono fun _ _ h => ⟨h.2, fun _ => h.1⟩
    · split
      · rename_i word hword
        have hne : (current s).kind ≠ .endOfFile := by simp [hword]
        refine (steady_withEnd ?_).mono fun _ _ h => ⟨h.2, fun _ => h.1⟩
        exact (steady_keywordStmt hg hs (.inr hne) word).mono fun _ _ h => ⟨h.1 hne, h.2⟩
      · exact steady_failExpected

end

end Grammar

end GoTree
