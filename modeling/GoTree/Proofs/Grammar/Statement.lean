import GoTree.Grammar.Statement
import GoTree.Proofs.Grammar.Declaration

/-!
# Statements are spelled by their tokens

The rules of the grammar of statements.  Semicolons, `else`, `range` and the keyword of a type guard
are implied.

## Main results

* `Grammar.reads_simple`: simple statements
* `Grammar.reads_ifThenBody`, `Grammar.reads_stmtBody`: the recursive rules of statements
-/

namespace GoTree

open GoTree.Parser

/-- **A statement read from some tokens:** they spell it.  Unless it may be labeled, they start and
stop where it does. -/
structure Stmt.ReadFrom (stmt : Stmt) (labelOk : Bool) (tokens : List Token) : Prop where
  spells : Spells tokens stmt.recorded stmt.exprs
  starts : labelOk = false → StartsAt tokens stmt.start
  stops : labelOk = false → StopsAt tokens stmt.stop

theorem Stmt.ReadFrom.located {stmt : Stmt} {tokens : List Token} (h : stmt.ReadFrom false tokens) :
    Located tokens stmt.start stmt.stop :=
  .of_delimits (h.starts rfl) (h.stops rfl)

/-- An assignment operator, or no token. -/
def AssignTokFrom : Option AssignTok → List Token → Prop
  | some tok, taken => Spells taken [.symbol tok.pos tok.op.symbol] []
  | none, taken => taken = []

theorem AssignTokFrom.spells {tok : Option AssignTok} {taken : List Token}
    (h : AssignTokFrom tok taken) :
    Spells taken (tok.map fun t => Recorded.symbol t.pos t.op.symbol).toList [] := by
  cases tok with
  | some tok => exact h
  | none =>
    obtain rfl : taken = [] := h
    exact .nil

namespace Grammar

variable {g : Grammar} {s : ParserState} (hg : g.Spelled)

/-! ### Simple statements -/

theorem kind_of_assignOp? {kind : Token.Kind} {op : AssignOp} (h : assignOp? kind = some op) :
    kind = .symbol op.symbol ∧ op.symbol ≠ .semicolon := by
  have hne : op.symbol ≠ .semicolon := by cases op <;> simp [AssignOp.symbol]
  refine ⟨?_, hne⟩
  unfold assignOp? at h
  split at h
  · rw [AssignOp.ofSymbol?_eq_some_iff] at h
    rw [h]
  · simp at h

theorem reads_assignTok? : Reads s assignTok? AssignTokFrom := by
  refine reads_peekKind ?_
  split
  · rename_i op hop
    obtain ⟨hkind, hne⟩ := kind_of_assignOp? hop
    refine (reads_nextPos hkind (by simp)).bind ?_
    rintro _ s₁ _ ⟨token, rfl, htoken, rfl⟩
    exact .pure (Spells.symbol htoken hne)
  · exact .pure rfl

include hg

theorem reads_assignment (labelOk : Bool) {lhs : List Expr} {tok : AssignTok}
    {before ttok : List Token} (hlhs : ExprsFrom lhs before) (htok : AssignTokFrom (some tok) ttok) :
    Reads s (g.assignment lhs tok) fun stmt taken =>
      stmt.ReadFrom labelOk (before ++ (ttok ++ taken)) := by
  refine (reads_exprList hg).bind fun rhs s₁ taken hrhs => .pure ?_
  have hall := hlhs.spells.append (htok.spells.append hrhs.spells)
  rw [List.append_nil]
  refine ⟨hall.congr rfl (by simp) (by simp), fun _ => ?_, fun _ => ?_⟩
  · obtain ⟨first, rest, rfl⟩ := List.exists_cons_of_ne_nil hlhs.ne_nil
    exact (hlhs.starts first rfl).append _
  · have hlast := List.getLast?_eq_some_getLast hrhs.ne_nil
    have hstops := (hrhs.stops _ hlast).append (before ++ ttok)
    rw [List.append_assoc] at hstops
    simpa [Stmt.stop, hlast] using hstops

theorem reads_afterExpr (labelOk : Bool) {x : Expr} {before : List Token}
    (hx : x.ReadFrom before) :
    Reads s (g.afterExpr labelOk x) fun stmt taken =>
      stmt.ReadFrom labelOk (before ++ taken) := by
  have hplain : Stmt.ReadFrom (.expr x) labelOk (before ++ []) := by
    rw [List.append_nil]
    exact ⟨hx.spells, fun _ => hx.starts, fun _ => hx.stops⟩
  have hstep (op : StepOp) (hkind : (current s).kind = .symbol op.symbol) :
      Reads s (do
        let tokPos ← nextPos
        pure (Stmt.step x tokPos op)) fun stmt taken => stmt.ReadFrom labelOk (before ++ taken) := by
    have hne : op.symbol ≠ .semicolon := by cases op <;> simp [StepOp.symbol]
    refine (reads_nextPos hkind (by simp)).bind ?_
    rintro _ s₁ _ ⟨token, rfl, htoken, rfl⟩
    have hall := hx.spells.append (Spells.symbol htoken hne)
    have hstop := StopsAt.singleton (.symbol htoken hne)
    rw [Recorded.stop_step] at hstop
    exact .pure ⟨hall.congr (by simp) (by simp) (by simp), fun _ => hx.starts.append _,
      fun _ => hstop.append before⟩
  -- a label, a value sent, a step, or the expression alone
  refine reads_peekKind ?_
  split
  · rename_i label hkind
    split
    · rename_i hlabel
      refine (reads_nextPos hkind (by simp)).bind ?_
      rintro _ s₁ _ ⟨colon, rfl, hcolon, rfl⟩
      refine (hg .stmt s₁).bind fun stmt s₂ taken hstmt => .pure ?_
      have hall := hx.spells.append ((Spells.symbol hcolon (by simp)).append hstmt)
      refine ⟨(hall.congr (by simp) (by simp) rfl).of_not_plain fun e he => ?_, ?_, ?_⟩
      · have hne : e ≠ .ident label := by
          rintro rfl
          cases he
        simp [hne]
      · simp [hlabel]
      · simp [hlabel]
    · exact .pure hplain
  · rename_i hkind
    refine (reads_nextPos hkind (by simp)).bind ?_
    rintro _ s₁ _ ⟨arrow, rfl, harrow, rfl⟩
    refine (reads_expr hg).bind fun value s₂ taken hvalue => .pure ?_
    have hall := hx.spells.append ((Spells.symbol harrow (by simp)).append hvalue.spells)
    rw [List.append_nil]
    exact ⟨hall.congr rfl (by simp) (by simp), fun _ => hx.starts.append _,
      fun _ => .append _ (.append _ hvalue.stops)⟩
  · rename_i hkind
    exact hstep .increment hkind
  · rename_i hkind
    exact hstep .decrement hkind
  · exact .pure hplain

theorem reads_afterExprs (labelOk : Bool) {lhs : List Expr} {before : List Token}
    (hlhs : ExprsFrom lhs before) :
    Reads s (g.afterExprs labelOk lhs) fun stmt taken =>
      stmt.ReadFrom labelOk (before ++ taken) := by
  unfold afterExprs
  split
  · rename_i x
    refine reads_afterExpr hg labelOk ⟨?_, hlhs.starts x rfl, hlhs.stops x rfl⟩
    exact hlhs.spells.congr rfl (by simp) (by simp)
  · exact reads_failExpected _

/-- **A simple statement** is spelled by its tokens. -/
theorem reads_simple (labelOk : Bool) : Reads s (g.simple labelOk) fun stmt taken =>
    stmt.ReadFrom labelOk taken := by
  refine (reads_exprList hg).bind fun lhs s₁ tlhs hlhs => ?_
  refine reads_assignTok?.bind fun tok s₂ ttok htok => ?_
  cases tok with
  | some tok => exact reads_assignment hg labelOk hlhs htok
  | none =>
    obtain rfl : ttok = [] := htok
    exact reads_afterExprs hg labelOk hlhs

omit hg in
/-- A header may start with the semicolon after a statement that is left out. -/
theorem spells_noInit {semicolon : Token} (hkind : semicolon.kind = .symbol .semicolon) :
    Spells [semicolon] (Stmt.recorded? none) (Stmt.exprs? none) :=
  .implied hkind (by decide)

omit hg in
/-- The statement that a header starts with, and the semicolon after it. -/
theorem spells_init {init : Stmt} {tokens : List Token} {semicolon : Token}
    (h : Spells tokens init.recorded init.exprs) (hkind : semicolon.kind = .symbol .semicolon) :
    Spells (tokens ++ [semicolon]) (Stmt.recorded? (some init)) (Stmt.exprs? (some init)) := by
  have hall := h.append (.implied hkind (by decide))
  exact hall.congr rfl (by simp [Stmt.recorded?]) (by simp [Stmt.exprs?])

/-! ### Calls, jumps and returns -/

theorem reads_startedCall (keyword : Keyword) : Reads s (g.startedCall keyword) fun e taken =>
    Spells taken e.recorded e.exprs := by
  refine ReadsAfter.bind (reads_expr hg) fun x s₁ taken hx => ?_
  split
  · refine .pure ?_
    simpa using hx.spells
  · exact reads_failAt rfl hx.located

omit hg in
theorem reads_branchLabel : Reads s branchLabel fun label taken =>
    Spells taken (label.map Ident.recorded).toList [] := by
  refine reads_isAt (fun _ => ?_) fun _ => .pure .nil
  refine reads_ident.map ?_
  rintro name _ ⟨token, rfl, hname⟩
  exact .singleton hname

omit hg in
theorem reads_branchStmt {kind : Branch} (hkind : (current s).kind = .keyword kind.keyword) :
    Reads s (branchStmt kind) fun stmt taken => Spells taken stmt.recorded stmt.exprs := by
  refine (reads_nextPos hkind (by simp)).bind ?_
  rintro _ s₁ _ ⟨word, rfl, hword, rfl⟩
  have hjump (label : Option Ident) (taken : List Token)
      (hlabel : Spells taken (label.map Ident.recorded).toList []) :
      Spells ([word] ++ taken) (Stmt.recorded (.branch word.start kind label))
        (Stmt.exprs (.branch word.start kind label)) :=
    ((Spells.keyword hword kind.isRecorded_keyword).append hlabel).congr rfl (by simp) (by simp)
  split
  · exact .pure (hjump none [] .nil)
  · refine reads_branchLabel.bind fun label s₂ taken hlabel => .pure ?_
    rw [List.append_nil]
    exact hjump label taken hlabel

theorem reads_returnResults : Reads s g.returnResults fun results taken =>
    Spells taken (results.flatMap Expr.recorded) (results.flatMap Expr.exprs) := by
  refine reads_peekKind ?_
  split
  · exact .pure .nil
  · exact .pure .nil
  · exact (reads_exprList hg).mono fun results taken h => h.spells

/-! ### Conditionals -/

/-- The header of an `if`: an initial statement that may be absent, and the condition. -/
def HeaderFrom (header : Option Stmt × Expr) (taken : List Token) : Prop :=
  Spells taken (Stmt.recorded? header.1 ++ header.2.recorded)
    (Stmt.exprs? header.1 ++ header.2.exprs)

theorem reads_conditionAfter {init : Option Stmt} {before : List Token}
    (hinit : Spells before (Stmt.recorded? init) (Stmt.exprs? init)) :
    Reads s (g.conditionAfter init) fun header taken => HeaderFrom header (before ++ taken) := by
  refine reads_isAt (fun _ => reads_fail _) fun _ => ?_
  refine (reads_simple hg false).bind fun stmt s₁ taken hstmt => ?_
  split
  · exact .pure ((hinit.append hstmt.spells).congr (by simp) rfl rfl)
  · exact reads_failExpected _

theorem reads_ifHeader : Reads s g.ifHeader HeaderFrom := by
  refine reads_eat (by simp) (fun semicolon s₁ hsemicolon => ?_) fun _ => ?_
  · exact reads_conditionAfter hg (spells_noInit hsemicolon)
  · refine (reads_simple hg false).bind fun first s₁ taken hfirst => ?_
    refine reads_eat (by simp) (fun semicolon s₂ hsemicolon => ?_) fun _ => ?_
    · refine (reads_conditionAfter hg (spells_init hfirst.spells hsemicolon)).mono fun header more h => ?_
      simpa using h
    · cases first with
      | expr cond =>
        exact .pure (hfirst.spells.congr (by simp) (by simp [Stmt.recorded?])
          (by simp [Stmt.exprs?]))
      | _ => exact reads_failExpected _

theorem reads_elseBranch : Reads s g.elseBranch fun stmt taken =>
    Spells taken (Stmt.recorded? stmt) (Stmt.exprs? stmt) := by
  refine reads_eat (by simp) (fun word s₁ hword => ?_) fun _ => ?_
  · have hfront : Spells [word] [] [] := .implied hword (by decide)
    refine reads_peekKind ?_
    split
    · refine (hg .ifThen s₁).map fun stmt taken hstmt => ?_
      simpa [Stmt.recorded?, Stmt.exprs?] using hfront.append hstmt
    · refine (reads_withEnd (reads_block hg)).bind fun block s₂ taken hblock => .pure ?_
      have hall := hfront.append hblock
      exact hall.congr (by simp) (by simp [Stmt.recorded?])
        (by simp [Stmt.exprs?])
    · exact reads_fail _
  · refine reads_endStatement.bind ?_
    rintro _ s₁ _ (rfl | ⟨semicolon, rfl, hkind⟩)
    · exact .pure .nil
    · exact .pure (.implied hkind (by decide))

/-- **An `if` statement** is spelled by its tokens. -/
theorem reads_ifThenBody : Reads s g.ifThenBody fun stmt taken =>
    Spells taken stmt.recorded stmt.exprs := by
  refine (reads_expect (by simp)).bind ?_
  rintro _ s₁ _ ⟨word, rfl, hword, rfl⟩
  refine reads_isAt (fun _ => reads_fail _) fun _ => ?_
  refine (reads_header fun s' => reads_ifHeader hg).bind ?_
  rintro ⟨init, cond⟩ s₂ theader hheader
  refine (reads_block hg).bind fun body s₃ tbody hbody => ?_
  refine (reads_elseBranch hg).bind fun orElse s₄ telse helse => .pure ?_
  have hall := (Spells.keyword hword rfl).append (hheader.append (hbody.append helse))
  exact hall.congr (by simp) (by simp) (by simp)

/-! ### Switches and selects -/

/-- The header of a switch: an initial statement and a tag, both of which may be absent. -/
structure SwitchHeaderFrom (header : Option Stmt × Option Stmt) (taken : List Token) : Prop where
  spells : Spells taken (Stmt.recorded? header.1 ++ Stmt.recorded? header.2)
    (Stmt.exprs? header.1 ++ Stmt.exprs? header.2)
  located : ∀ tag ∈ header.2, Located taken tag.start tag.stop

theorem reads_switchTag {init : Option Stmt} {before : List Token}
    (hinit : Spells before (Stmt.recorded? init) (Stmt.exprs? init)) :
    Reads s (switchHeader.switchTag g init) fun header taken =>
      SwitchHeaderFrom header (before ++ taken) := by
  refine reads_isAt (fun _ => ?_) fun _ => ?_
  · exact .pure ⟨(hinit.append .nil).congr rfl rfl rfl, by simp⟩
  · refine (reads_simple hg false).bind fun tag s₁ taken htag => .pure ?_
    rw [List.append_nil]
    refine ⟨hinit.append htag.spells, ?_⟩
    rintro _ ⟨⟩
    exact htag.located.append_left before

theorem reads_switchHeader : Reads s g.switchHeader SwitchHeaderFrom := by
  refine reads_eat (by simp) (fun semicolon s₁ hsemicolon => ?_) fun _ => ?_
  · exact reads_switchTag hg (spells_noInit hsemicolon)
  · refine (reads_simple hg false).bind fun first s₁ taken hfirst => ?_
    refine reads_eat (by simp) (fun semicolon s₂ hsemicolon => ?_) fun _ => ?_
    · refine (reads_switchTag hg (spells_init hfirst.spells hsemicolon)).mono fun header more h => ?_
      simpa using h
    · refine .pure ?_
      rw [List.append_nil]
      exact ⟨hfirst.spells, by rintro _ ⟨⟩; exact hfirst.located⟩

/-- The values of a clause; only the default clause has none. -/
theorem reads_caseValues (isCase : Bool) : Reads s (g.caseValues isCase) fun list taken =>
    Spells taken (list.flatMap Expr.recorded) (list.flatMap Expr.exprs) ∧
      list.isEmpty = !isCase := by
  cases isCase with
  | true =>
    refine (reads_exprList hg).mono fun list taken h => ⟨h.spells, ?_⟩
    simpa using h.ne_nil
  | false => exact .pure ⟨.nil, rfl⟩

omit hg in
/-- A clause starts with one of two keywords. -/
theorem kind_of_endsClauses {kind : Token.Kind} (h : endsClauses kind = false) :
    kind = .keyword .caseKw ∨ kind = .keyword .defaultKw := by
  simpa [endsClauses, or_iff_not_imp_left] using h

/-- What follows the keyword of a clause. -/
theorem reads_caseClause (hkind : endsClauses (current s).kind = false) :
    Reads s g.caseClause fun clause taken => Spells taken clause.recorded clause.exprs := by
  -- behind its keyword either kind of clause is read in the same way
  have hclause (isCase : Bool)
      (hword : (current s).kind = .keyword (if isCase then .caseKw else .defaultKw)) :
      Reads s (do
        let pos ← nextPos
        let list ← g.caseValues isCase
        let colon ← expect (.symbol .colon)
        let body ← g.stmtList
        pure (⟨pos, list, colon, body⟩ : CaseClause)) fun clause taken =>
          Spells taken clause.recorded clause.exprs := by
    refine (reads_nextPos hword (by simp)).bind ?_
    rintro _ s₁ _ ⟨word, rfl, hword, rfl⟩
    refine (reads_caseValues hg isCase).bind ?_
    rintro list s₂ tlist ⟨hlist, hempty⟩
    refine (reads_expect (by simp)).bind ?_
    rintro _ s₃ _ ⟨colon, rfl, hcolon, rfl⟩
    refine (reads_stmtList hg).bind fun body s₄ tbody hbody => .pure ?_
    have hall := (Spells.keyword hword (by cases isCase <;> rfl)).append (hlist.append
      ((Spells.symbol hcolon (by simp)).append hbody))
    refine hall.congr (by simp) ?_ (by simp [CaseClause.exprs])
    cases isCase <;> simp [CaseClause.recorded, hempty]
  rcases kind_of_endsClauses hkind with hcase | hdefault
  · exact reads_isAt (fun _ => hclause true hcase) fun hne => absurd hcase hne
  · refine reads_isAt (fun hcase => ?_) fun _ => hclause false hdefault
    rw [hdefault] at hcase
    simp at hcase

theorem reads_caseBlock : Reads s g.caseBlock fun b taken =>
    Spells taken b.recorded b.exprs := by
  refine (reads_expect (by simp)).bind ?_
  rintro _ s₁ _ ⟨left, rfl, hleft, rfl⟩
  refine (reads_untilKind fun s hs => reads_caseClause hg hs).bind fun clauses s₂ taken hclauses => ?_
  refine (reads_expect (by simp)).bind ?_
  rintro _ s₃ _ ⟨right, rfl, hright, rfl⟩
  have hall := (Spells.symbol hleft (by simp)).append
    ((Spells.each hclauses).append (.symbol hright (by simp)))
  exact .pure (hall.congr (by simp) (by simp [CaseBlock.recorded]) (by simp [CaseBlock.exprs]))

omit hg in
/-- A switch records what its header and body do. -/
theorem reads_makeSwitch {word : Token} {init tag : Option Stmt} {body : CaseBlock}
    {tokens tbody : List Token} (hword : word.kind = .keyword .switchKw)
    (hheader : SwitchHeaderFrom (init, tag) tokens) (hbody : Spells tbody body.recorded body.exprs) :
    ReadsAfter (tokens ++ tbody) s (makeSwitch word.start init tag body) fun stmt taken =>
      Spells (word :: (tokens ++ tbody) ++ taken) stmt.recorded stmt.exprs := by
  have hall := (Spells.keyword hword rfl).append (hheader.spells.append hbody)
  unfold makeSwitch
  split
  · exact .pure (hall.congr (by simp) (by simp [Stmt.recorded?, Expr.recorded?])
      (by simp [Stmt.exprs?, Expr.exprs?]))
  · rename_i guard
    split
    · exact .pure (hall.congr (by simp) (by simp [Stmt.recorded?])
        (by simp [Stmt.exprs?]))
    · split
      · exact .pure (hall.congr (by simp)
          (by simp [Stmt.recorded?, Expr.recorded?])
          (by simp [Stmt.exprs?, Expr.exprs?]))
      · exact reads_failAt rfl ((hheader.located guard rfl).append_right tbody)

theorem reads_switchStmt : Reads s g.switchStmt fun stmt taken =>
    Spells taken stmt.recorded stmt.exprs := by
  refine (reads_expect (by simp)).bind ?_
  rintro _ s₁ _ ⟨word, rfl, hword, rfl⟩
  have hbody (s₂ : ParserState) (header : Option Stmt × Option Stmt) (theader : List Token)
      (hheader : SwitchHeaderFrom header theader) :
      ReadsAfter theader s₂ (do
        let body ← withEnd g.caseBlock
        makeSwitch word.start header.1 header.2 body) fun stmt taken =>
          Spells ([word] ++ (theader ++ taken)) stmt.recorded stmt.exprs := by
    refine (reads_withEnd (reads_caseBlock hg)).after.bind fun body s₃ tbody hbody => ?_
    refine (reads_makeSwitch hword hheader hbody).mono fun stmt more h => ?_
    simpa using h
  refine reads_isAt (fun _ => hbody s₁ (none, none) [] ⟨.nil, by simp⟩) fun _ => ?_
  exact ReadsAfter.bind (reads_header fun s' => reads_switchHeader hg)
    fun header s₂ theader hheader => hbody s₂ header theader hheader

theorem reads_clauseComm (isCase : Bool) : Reads s (g.clauseComm isCase) fun comm taken =>
    Spells taken (Stmt.recorded? comm) (Stmt.exprs? comm) ∧ comm.isSome = isCase := by
  cases isCase with
  | true => exact (reads_simple hg false).map fun stmt taken h => ⟨h.spells, rfl⟩
  | false => exact .pure ⟨.nil, rfl⟩

theorem reads_commClause (hkind : endsClauses (current s).kind = false) :
    Reads s g.commClause fun clause taken => Spells taken clause.recorded clause.exprs := by
  -- behind its keyword either kind of clause is read in the same way
  have hclause (isCase : Bool)
      (hword : (current s).kind = .keyword (if isCase then .caseKw else .defaultKw)) :
      Reads s (do
        let pos ← nextPos
        let comm ← g.clauseComm isCase
        let colon ← expect (.symbol .colon)
        let body ← g.stmtList
        pure (⟨pos, comm, colon, body⟩ : CommClause)) fun clause taken =>
          Spells taken clause.recorded clause.exprs := by
    refine (reads_nextPos hword (by simp)).bind ?_
    rintro _ s₁ _ ⟨word, rfl, hword, rfl⟩
    refine (reads_clauseComm hg isCase).bind ?_
    rintro comm s₂ tcomm ⟨hcomm, hsome⟩
    refine (reads_expect (by simp)).bind ?_
    rintro _ s₃ _ ⟨colon, rfl, hcolon, rfl⟩
    refine (reads_stmtList hg).bind fun body s₄ tbody hbody => .pure ?_
    have hall := (Spells.keyword hword (by cases isCase <;> rfl)).append (hcomm.append
      ((Spells.symbol hcolon (by simp)).append hbody))
    exact hall.congr (by simp) (by simp [CommClause.recorded, hsome]) (by simp [CommClause.exprs])
  rcases kind_of_endsClauses hkind with hcase | hdefault
  · exact reads_isAt (fun _ => hclause true hcase) fun hne => absurd hcase hne
  · refine reads_isAt (fun hcase => ?_) fun _ => hclause false hdefault
    rw [hdefault] at hcase
    simp at hcase

theorem reads_selectStmt : Reads s g.selectStmt fun stmt taken =>
    Spells taken stmt.recorded stmt.exprs := by
  refine (reads_expect (by simp)).bind ?_
  rintro _ s₁ _ ⟨word, rfl, hword, rfl⟩
  refine (reads_expect (by simp)).bind ?_
  rintro _ s₂ _ ⟨left, rfl, hleft, rfl⟩
  refine (reads_untilKind fun s hs => reads_commClause hg hs).bind fun clauses s₃ taken hclauses => ?_
  refine (reads_expect (by simp)).bind ?_
  rintro _ s₄ _ ⟨right, rfl, hright, rfl⟩
  have hall := (Spells.keyword hword rfl).append ((Spells.symbol hleft (by simp)).append
    ((Spells.each hclauses).append (.symbol hright (by simp))))
  exact .pure (hall.congr (by simp) (by simp) (by simp))

/-! ### Loops -/

/-- The header of a loop is spelled by its tokens. -/
def LoopHeaderFrom : LoopHeader → List Token → Prop
  | .clauses init cond post, taken =>
    Spells taken (Stmt.recorded? init ++ Stmt.recorded? cond ++ Stmt.recorded? post)
      (Stmt.exprs? init ++ Stmt.exprs? cond ++ Stmt.exprs? post)
  | .range lhs tok x, taken =>
    Spells taken (lhs.flatMap Expr.recorded ++
        (tok.map fun t => Recorded.symbol t.pos t.op.symbol).toList ++ x.recorded)
      (lhs.flatMap Expr.exprs ++ x.exprs) ∧ ∀ e ∈ lhs, Located taken e.start e.stop

/-- The start of a loop header is spelled by its tokens. -/
def LoopStartFrom : Stmt ⊕ LoopHeader → List Token → Prop
  | .inl stmt, taken => Spells taken stmt.recorded stmt.exprs
  | .inr header, taken => LoopHeaderFrom header taken

theorem reads_loopStart : Reads s g.loopStart LoopStartFrom := by
  refine reads_eat (by simp) (fun word s₁ hword => ?_) fun _ => ?_
  · -- a loop over a range without variables
    refine (reads_expr hg).bind fun x s₂ taken hx => .pure ?_
    have hall := (Spells.implied hword (by decide)).append hx.spells
    exact ⟨hall.congr (by simp) (by simp) (by simp), by simp⟩
  · refine (reads_exprList hg).bind fun lhs s₁ tlhs hlhs => ?_
    refine reads_assignTok?.bind fun tok s₂ ttok htok => ?_
    have hfront := hlhs.spells.append htok.spells
    cases tok with
    | none =>
      obtain rfl : ttok = [] := htok
      exact (reads_afterExprs hg false hlhs).map fun stmt taken h => h.spells
    | some tok =>
      have hassign : Reads s₂ (Sum.inl <$> g.assignment lhs tok) fun start more =>
          LoopStartFrom start (tlhs ++ (ttok ++ more)) :=
        (reads_assignment hg false hlhs htok).map fun stmt taken h => h.spells
      refine reads_isAt (fun hrange => ?_) fun _ => ?_
      · split
        · -- behind an operator for variables the range is one expression
          refine (reads_next hrange (by simp)).bind ?_
          rintro word s₃ _ ⟨-, rfl, hword⟩
          refine (reads_expr hg).bind fun x s₄ taken hx => .pure ?_
          have hall := hfront.append ((Spells.implied hword (by decide)).append hx.spells)
          refine ⟨hall.congr (by simp) (by simp) (by simp), fun e he => ?_⟩
          exact (hlhs.located e he).append_right _
        · exact hassign
      · rw [Bool.and_false]
        exact hassign

theorem reads_loopCondition : Reads s g.loopCondition fun stmt taken =>
    Spells taken (Stmt.recorded? stmt) (Stmt.exprs? stmt) := by
  refine reads_isAt (fun _ => .pure .nil) fun _ => ?_
  exact (reads_simple hg false).map fun stmt taken h => h.spells

theorem reads_loopPost : Reads s g.loopPost fun stmt taken =>
    Spells taken (Stmt.recorded? stmt) (Stmt.exprs? stmt) := by
  refine reads_isAt (fun _ => .pure .nil) fun _ => ?_
  exact (reads_simple hg false).map fun stmt taken h => h.spells

theorem reads_loopClauses {init : Option Stmt} {before : List Token}
    (hinit : Spells before (Stmt.recorded? init) (Stmt.exprs? init)) :
    Reads s (g.loopClauses init) fun header taken => LoopHeaderFrom header (before ++ taken) := by
  refine (reads_loopCondition hg).bind fun cond s₁ tcond hcond => ?_
  refine (reads_expect (by simp)).bind ?_
  rintro _ s₂ _ ⟨semicolon, rfl, hsemicolon, -⟩
  refine (reads_loopPost hg).bind fun post s₃ tpost hpost => .pure ?_
  have hall := hinit.append (hcond.append
    ((Spells.implied hsemicolon (by decide)).append hpost))
  exact hall.congr (by simp) (by simp) (by simp)

theorem reads_loopHeader : Reads s g.loopHeader LoopHeaderFrom := by
  refine reads_eat (by simp) (fun semicolon s₁ hsemicolon => ?_) fun _ => ?_
  · exact reads_loopClauses hg (spells_noInit hsemicolon)
  · refine (reads_loopStart hg).bind fun start s₁ taken hstart => ?_
    cases start with
    | inr header =>
      refine .pure ?_
      rw [List.append_nil]
      exact hstart
    | inl first =>
      have hfirst : Spells taken first.recorded first.exprs := hstart
      refine reads_eat (by simp) (fun semicolon s₂ hsemicolon => ?_) fun _ => ?_
      · refine (reads_loopClauses hg (spells_init hfirst hsemicolon)).mono fun header more h => ?_
        simpa using h
      · exact .pure (hfirst.congr (by simp) (by simp [Stmt.recorded?]) (by simp [Stmt.exprs?]))

omit hg in
/-- A loop records what its header and body do. -/
theorem reads_makeLoop {word : Token} {head : LoopHeader} {body : Block}
    {thead tbody : List Token} (hword : word.kind = .keyword .forKw)
    (hhead : LoopHeaderFrom head thead) (hbody : Spells tbody body.recorded body.exprs) :
    ReadsAfter (thead ++ tbody) s (makeLoop word.start head body) fun stmt taken =>
      Spells (word :: thead ++ tbody ++ taken) stmt.recorded stmt.exprs := by
  have hfor := Spells.keyword hword rfl
  cases head with
  | range lhs tok x =>
    obtain ⟨hhead, hlocated⟩ := hhead
    have hall := hfor.append (hhead.append hbody)
    cases lhs with
    | nil =>
      exact .pure (hall.congr (by simp) (by simp [Expr.recorded?])
        (by simp [Expr.exprs?]))
    | cons key lhs =>
      cases lhs with
      | nil =>
        exact .pure (hall.congr (by simp) (by simp [Expr.recorded?])
          (by simp [Expr.exprs?]))
      | cons value lhs =>
        cases lhs with
        | nil =>
          exact .pure (hall.congr (by simp) (by simp [Expr.recorded?])
            (by simp [Expr.exprs?]))
        | cons extra lhs =>
          -- the third variable was read with the header, and the body after it
          exact reads_failAt rfl ((hlocated extra (by simp)).append_right tbody)
  | clauses init cond post =>
    have hall := hfor.append (Spells.append hhead hbody)
    cases cond with
    | none =>
      exact .pure (hall.congr (by simp) (by simp [Expr.recorded?, Stmt.recorded?])
        (by simp [Expr.exprs?, Stmt.exprs?]))
    | some cond =>
      cases cond with
      | expr cond =>
        exact .pure (hall.congr (by simp)
          (by simp [Expr.recorded?, Stmt.recorded?])
          (by simp [Expr.exprs?, Stmt.exprs?]))
      | _ => exact (reads_failExpected _).after

theorem reads_loop : Reads s g.loop fun stmt taken =>
    Spells taken stmt.recorded stmt.exprs := by
  refine (reads_expect (by simp)).bind ?_
  rintro _ s₁ _ ⟨word, rfl, hword, rfl⟩
  have hbody (s₂ : ParserState) (head : LoopHeader) (thead : List Token)
      (hhead : LoopHeaderFrom head thead) :
      ReadsAfter thead s₂ (do
        let body ← g.block
        makeLoop word.start head body) fun stmt taken =>
          Spells ([word] ++ (thead ++ taken)) stmt.recorded stmt.exprs := by
    refine (reads_block hg).after.bind fun body s₃ tbody hbody => ?_
    refine (reads_makeLoop hword hhead hbody).mono fun stmt more h => ?_
    simpa using h
  refine reads_isAt (fun _ => hbody s₁ (.clauses none none none) [] .nil) fun _ => ?_
  exact ReadsAfter.bind (reads_header fun s' => reads_loopHeader hg)
    fun head s₂ thead hhead => hbody s₂ head thead hhead

/-! ### Statements -/

theorem reads_exprStmt : Reads s g.exprStmt fun stmt taken =>
    Spells taken stmt.recorded stmt.exprs := by
  refine (reads_simple hg true).bind fun stmt s₁ taken hstmt => ?_
  have hend : Reads s₁ (do endStatement; pure stmt) fun result more =>
      Spells (taken ++ more) result.recorded result.exprs := by
    refine reads_endStatement.bind ?_
    rintro _ s₂ _ (rfl | ⟨semicolon, rfl, hkind⟩)
    · refine .pure ?_
      simpa using hstmt.spells
    · refine .pure ?_
      simpa using hstmt.spells.append (.implied hkind (by decide))
  cases stmt with
  | labeled label colon inner =>
    -- the statement after the label has taken its own end
    refine .pure ?_
    simpa using hstmt.spells
  | _ => exact hend

theorem reads_keywordStmt {word : Keyword} (hword : (current s).kind = .keyword word) :
    Reads s (g.keywordStmt word) fun stmt taken => Spells taken stmt.recorded stmt.exprs := by
  unfold keywordStmt
  split
  · exact (reads_genDecl hg hword).map fun d taken h => h
  · exact (reads_genDecl hg hword).map fun d taken h => h
  · exact (reads_genDecl hg hword).map fun d taken h => h
  · refine (reads_nextPos hword (by simp)).bind ?_
    rintro _ s₁ _ ⟨token, rfl, htoken, rfl⟩
    refine (reads_startedCall hg .goKw).bind fun call s₂ taken hcall => .pure ?_
    have hall := (Spells.keyword htoken rfl).append hcall
    exact hall.congr (by simp) (by simp) (by simp)
  · refine (reads_nextPos hword (by simp)).bind ?_
    rintro _ s₁ _ ⟨token, rfl, htoken, rfl⟩
    refine (reads_startedCall hg .deferKw).bind fun call s₂ taken hcall => .pure ?_
    have hall := (Spells.keyword htoken rfl).append hcall
    exact hall.congr (by simp) (by simp) (by simp)
  · refine (reads_nextPos hword (by simp)).bind ?_
    rintro _ s₁ _ ⟨token, rfl, htoken, rfl⟩
    refine (reads_returnResults hg).bind fun results s₂ taken hresults => .pure ?_
    have hall := (Spells.keyword htoken rfl).append hresults
    exact hall.congr (by simp) (by simp) (by simp)
  · exact reads_branchStmt hword
  · exact reads_branchStmt hword
  · exact reads_branchStmt hword
  · exact reads_branchStmt hword
  · exact reads_selectStmt hg
  · exact reads_loop hg
  · exact reads_failExpected _

omit hg in
/-- A semicolon without characters is implied, one with characters is recorded. -/
theorem reads_emptyStmt (hkind : (current s).kind = .symbol .semicolon) :
    Reads s emptyStmt fun stmt taken => Spells taken stmt.recorded stmt.exprs := by
  refine (reads_next hkind (by simp)).bind ?_
  rintro token s₁ _ ⟨-, rfl, htoken⟩
  refine .pure ?_
  by_cases hempty : token.text = []
  · have hall : Spells [token] [] [] := .implied htoken (by decide)
    exact hall.congr rfl (by simp [hempty]) rfl
  · have hdenotes : (Recorded.symbol token.start .semicolon).Denotes token :=
      ⟨rfl, by simp [Token.stored?, htoken, Recorded.symbol],
        by simp [Token.Kind.tokenClass, htoken, Recorded.symbol], fun _ => hempty, by simp [htoken]⟩
    exact (Spells.singleton hdenotes).congr rfl (by simp [hempty]) rfl

/-- **A statement** is spelled by its tokens. -/
theorem reads_stmtBody : Reads s g.stmtBody fun stmt taken =>
    Spells taken stmt.recorded stmt.exprs := by
  refine reads_peek ?_
  split
  · exact hg .ifThen s
  · exact reads_switchStmt hg
  · rename_i hkind
    exact reads_emptyStmt hkind
  · exact .pure .nil
  · exact (reads_withEnd (reads_block hg)).map fun b taken h => h
  · split
    · exact reads_exprStmt hg
    · split
      · rename_i word hkind
        exact reads_withEnd (reads_keywordStmt hg hkind)
      · exact reads_failExpected _

end Grammar

end GoTree
