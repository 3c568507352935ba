import GoTree.Proofs.Grammar.Procedure
import GoTree.Proofs.Mapping.Document

/-!
# Headers of control statements

In the header of a control statement a brace after a type name opens the body, so that a composite
literal of a named type has to stand between brackets there.  The grammar keeps to this by the
expression level: a header is at level minus one, and brackets inside it are one level up.

Every rule comes back to the level it started at, whether or not it fails, and no statement starts
at a negative level.  So the level tells what is in a header, and the literals of named types in the
header of a statement that was read are enclosed by brackets of the header.

## Main definitions

* `File.stmts`: every statement of a file
* `Stmt.header`: every expression in the header of a control statement
* `Expr.enclosed`: what stands between the brackets of an expression
* `Sheltered`: literals of named types stand between brackets
* `Grammar.guarded`: the rules with an alarm for statements in headers

## Main results

* `Phrase.Derived.sheltered`: in a header, literals of named types stand between brackets
* `Grammar.isRunAt_guarded`: the alarm is not needed at the levels of Go files
* `parse_headers`: levels come back, statements start outside headers, and headers are sheltered
-/

namespace GoTree

open GoTree.Grammar

/-! ### Statements inside constructs -/

mutual

/-- **A statement and every statement inside it**, function literals apart. -/
def Stmt.stmts : Stmt → List Stmt
  | .block b => .block b :: b.stmts
  | .labeled label colon stmt => .labeled label colon stmt :: stmt.stmts
  | .ifThen pos init cond body orElse =>
    .ifThen pos init cond body orElse :: Stmt.stmts? init ++ body.stmts ++ Stmt.stmts? orElse
  | .switch pos init tag body => .switch pos init tag body :: Stmt.stmts? init ++ body.stmts
  | .typeSwitch pos init guard body =>
    .typeSwitch pos init guard body :: Stmt.stmts? init ++ guard.stmts ++ body.stmts
  | .select pos lbrace clauses rbrace =>
    .select pos lbrace clauses rbrace :: CommClause.stmtsAll clauses
  | .forLoop pos init cond post body =>
    .forLoop pos init cond post body :: Stmt.stmts? init ++ Stmt.stmts? post ++ body.stmts
  | .rangeLoop pos key value tok x body => .rangeLoop pos key value tok x body :: body.stmts
  | s => [s]

/-- The statements of one that may be absent. -/
def Stmt.stmts? : Option Stmt → List Stmt
  | none => []
  | some s => s.stmts

/-- The statements inside several. -/
def Stmt.stmtsAll : List Stmt → List Stmt
  | [] => []
  | s :: rest => s.stmts ++ Stmt.stmtsAll rest

/-- The statements of a block. -/
def Block.stmts : Block → List Stmt
  | ⟨_, list, _⟩ => Stmt.stmtsAll list

/-- The statements of the clauses of a switch. -/
def CaseBlock.stmts : CaseBlock → List Stmt
  | ⟨_, clauses, _⟩ => CaseClause.stmtsAll clauses

/-- The statements of several clauses. -/
def CaseClause.stmtsAll : List CaseClause → List Stmt
  | [] => []
  | clause :: rest => clause.stmts ++ CaseClause.stmtsAll rest

/-- The statements of a clause of a switch. -/
def CaseClause.stmts : CaseClause → List Stmt
  | ⟨_, _, _, body⟩ => Stmt.stmtsAll body

/-- The statements of several clauses. -/
def CommClause.stmtsAll : List CommClause → List Stmt
  | [] => []
  | clause :: rest => clause.stmts ++ CommClause.stmtsAll rest

/-- The statements of a clause of a select. -/
def CommClause.stmts : CommClause → List Stmt
  | ⟨_, comm, _, body⟩ => Stmt.stmts? comm ++ Stmt.stmtsAll body

end

section

variable {s : Stmt}

theorem Stmt.mem_stmts? {o : Option Stmt} : s ∈ Stmt.stmts? o ↔ ∃ a ∈ o, s ∈ a.stmts := by
  cases o <;> simp [Stmt.stmts?]

theorem Stmt.mem_stmtsAll {list : List Stmt} :
    s ∈ Stmt.stmtsAll list ↔ ∃ a ∈ list, s ∈ a.stmts := by
  induction list with
  | nil => simp [Stmt.stmtsAll]
  | cons a rest ih => simp [Stmt.stmtsAll, ih]

theorem Block.mem_stmts? {b : Option Block} :
    s ∈ (b.map Block.stmts).getD [] ↔ ∃ a ∈ b, s ∈ a.stmts := by
  cases b <;> simp

theorem CaseClause.mem_stmtsAll {list : List CaseClause} :
    s ∈ CaseClause.stmtsAll list ↔ ∃ c ∈ list, s ∈ c.stmts := by
  induction list with
  | nil => simp [CaseClause.stmtsAll]
  | cons c rest ih => simp [CaseClause.stmtsAll, ih]

theorem CommClause.mem_stmtsAll {list : List CommClause} :
    s ∈ CommClause.stmtsAll list ↔ ∃ c ∈ list, s ∈ c.stmts := by
  induction list with
  | nil => simp [CommClause.stmtsAll]
  | cons c rest ih => simp [CommClause.stmtsAll, ih]

end

/-- The statements of the body of a function literal. -/
def Expr.bodyStmts : Expr → List Stmt
  | .funcLit _ body => body.stmts
  | _ => []

/-- The statements of the body of a function declaration. -/
def Decl.bodyStmts : Decl → List Stmt
  | .gen _ => []
  | .func d => (d.body.map Block.stmts).getD []

/-- **Every statement of a file:** those of its functions and those of the function literals in its
expressions. -/
def File.stmts (file : File) : List Stmt :=
  file.decls.flatMap Decl.bodyStmts ++ file.exprs.flatMap Expr.bodyStmts

/-! ### Headers -/

/-- **Every expression in the header** of a control statement. -/
def Stmt.header : Stmt → List Expr
  | .ifThen _ init cond _ _ => Stmt.exprs? init ++ cond.exprs
  | .switch _ init tag _ => Stmt.exprs? init ++ Expr.exprs? tag
  | .typeSwitch _ init guard _ => Stmt.exprs? init ++ guard.exprs
  | .forLoop _ init cond post _ => Stmt.exprs? init ++ Expr.exprs? cond ++ Stmt.exprs? post
  | .rangeLoop _ key value _ x _ => Expr.exprs? key ++ Expr.exprs? value ++ x.exprs
  | _ => []

/-- Whether an expression is a composite literal of a named type, plain, qualified or with a type
argument. -/
def Expr.isNamedLiteral : Expr → Bool
  | .compositeLit (some ty) _ _ _ =>
    match ty.unparen with
    | .ident _ | .selector _ _ | .index _ _ _ _ => true
    | _ => false
  | _ => false

/-- **What stands between the brackets of an expression:** in parentheses, as arguments, as an index
or the bounds of a slice, as the length of an array, and between the braces of a composite literal
or a function body. -/
def Expr.enclosed : Expr → List Expr
  | .paren _ x _ => x.exprs
  | .call _ _ args _ _ => Expr.exprsAll args
  | .index _ _ i _ => i.exprs
  | .slice _ _ low high max _ _ => Expr.exprs? low ++ Expr.exprs? high ++ Expr.exprs? max
  | .arrayType _ len _ => Expr.exprs? len
  | .compositeLit _ _ elts _ => Expr.exprsAll elts
  | .funcLit _ body => body.exprs
  | _ => []

/-- What an expression leaves outside these brackets, itself apart. -/
def Expr.outside : Expr → List Expr
  | .ident _ | .basicLit _ | .paren _ _ _ => []
  | .call x _ _ _ _ | .index x _ _ _ | .slice x _ _ _ _ _ _ => x.exprs
  | .arrayType _ _ x | .selector x _ | .star _ x | .unary _ _ x | .chanType _ _ _ x => x.exprs
  | .compositeLit ty _ _ _ | .ellipsis _ ty => Expr.exprs? ty
  | .funcLit ty _ | .funcType ty => ty.exprs
  | .typeAssert x _ ty _ => x.exprs ++ Expr.exprs? ty
  | .binary x _ _ y | .keyValue x _ y | .mapType _ x y => x.exprs ++ y.exprs
  | .structType _ fields | .interfaceType _ fields => fields.exprs

/-- The expressions inside an expression are itself and those inside and outside its brackets. -/
theorem Expr.mem_exprs {c e : Expr} : c ∈ e.exprs ↔ c = e ∨ c ∈ e.outside ∨ c ∈ e.enclosed := by
  cases e with
  | arrayType => simp [Expr.outside, Expr.enclosed, or_comm]
  | _ => simp [Expr.outside, Expr.enclosed]

/-- **Composite literals of named types stand between the brackets** of another expression. -/
def Sheltered (list : List Expr) : Prop :=
  ∀ c ∈ list, c.isNamedLiteral = true → ∃ b ∈ list, c ∈ b.enclosed

namespace Sheltered

variable {list list' : List Expr}

theorem nil : Sheltered [] := by
  intro c hc
  cases hc

theorem append (h : Sheltered list) (h' : Sheltered list') : Sheltered (list ++ list') := by
  intro c hc hnamed
  rcases List.mem_append.1 hc with hc | hc
  · obtain ⟨b, hb, hin⟩ := h c hc hnamed
    exact ⟨b, List.mem_append_left _ hb, hin⟩
  · obtain ⟨b, hb, hin⟩ := h' c hc hnamed
    exact ⟨b, List.mem_append_right _ hb, hin⟩

/-- **An expression encloses what is between its brackets**, so that only what is outside of them is
left, and the expression itself. -/
theorem expr {e : Expr} (hself : e.isNamedLiteral = false) (h : Sheltered e.outside) :
    Sheltered e.exprs := by
  intro c hc hnamed
  rcases Expr.mem_exprs.1 hc with rfl | hc | hc
  · simp [hself] at hnamed
  · obtain ⟨b, hb, hin⟩ := h c hc hnamed
    exact ⟨b, Expr.mem_exprs.2 (.inr (.inl hb)), hin⟩
  · exact ⟨e, Expr.mem_exprs.2 (.inl rfl), hc⟩

theorem flatMap {α : Type} {list : List α} {f : α → List Expr}
    (h : ∀ a ∈ list, Sheltered (f a)) : Sheltered (list.flatMap f) := by
  induction list with
  | nil => exact nil
  | cons a rest ih =>
    rw [List.forall_mem_cons] at h
    exact h.1.append (ih h.2)

theorem exprs? {e : Option Expr} (h : ∀ x ∈ e, Sheltered x.exprs) : Sheltered (Expr.exprs? e) := by
  cases e with
  | none => exact nil
  | some x => exact h x rfl

theorem stmtExprs? {s : Option Stmt} (h : ∀ a ∈ s, Sheltered a.exprs) :
    Sheltered (Stmt.exprs? s) := by
  cases s with
  | none => exact nil
  | some a => exact h a rfl

theorem exprsAll {list : List Expr} (h : ∀ x ∈ list, Sheltered x.exprs) :
    Sheltered (Expr.exprsAll list) := by
  rw [Expr.exprsAll_eq]
  exact flatMap h

theorem fields {list : List Field} (h : ∀ f ∈ list, Sheltered f.exprs) :
    Sheltered (Field.exprsAll list) := by
  rw [Field.exprsAll_eq]
  exact flatMap h

end Sheltered

/-- In a header, the type of a composite literal is no name. -/
theorem isNamedLiteral_of_isLiteralType {ty : Expr} {elts : List Expr} {lbrace rbrace : Offset}
    (h : isLiteralType ty (-1) = true) :
    (Expr.compositeLit (some ty) lbrace elts rbrace).isNamedLiteral = false := by
  unfold isLiteralType at h
  unfold Expr.isNamedLiteral
  split at h <;> simp_all

namespace Phrase

/-- Whether the parts of a role that stand outside all brackets are in the header of a control
statement, if the phrase is.  Types may be part of a header; blocks and elements may not. -/
def exposed : Phrase → Bool
  | .typeName _ | .type _ | .field _ | .method _ | .parameter _ | .parameters _ => true
  | .signature _ | .methodType _ => true
  | .expr header _ _ | .simple header _ => header
  | _ => false

namespace Derived

variable {phrase : Phrase}

/-- **In a header, composite literals of named types stand between brackets.** -/
theorem sheltered (h : phrase.Derived) (hexposed : phrase.exposed = true) :
    Sheltered phrase.exprs := by
  induction h with
  | plainName | ident | basicLit | paren | parenType => exact .expr rfl .nil
  | qualifiedName => exact .expr rfl (.expr rfl .nil)
  | named _ ih | parameter _ ih | embedded _ ih | embeddedInterface _ ih => exact ih rfl
  | namedField _ _ ih | method _ ih => exact ih rfl
  | pointerType _ ih | embeddedPointer _ ih => exact .expr rfl (ih rfl)
  | arrayType _ _ _ ih => exact .expr rfl (ih rfl)
  | structType _ ih | interfaceType _ ih => exact .expr rfl (.fields fun f hf => ih f hf rfl)
  | funcType _ _ ih | methodType _ _ ih => exact .expr rfl (ih rfl)
  | mapType _ _ ihkey ihvalue => exact .expr rfl ((ihkey rfl).append (ihvalue rfl))
  | chanType _ ih | sendType _ ih | receiveType _ ih => exact .expr rfl (ih rfl)
  | variadic _ ih => exact .expr rfl (ih rfl)
  | unnamedParameters _ ih =>
    refine .fields fun f hf => ?_
    obtain ⟨x, hx, rfl⟩ := List.mem_map.1 hf
    exact ih x hx rfl
  | namedParameters _ _ ih => exact .fields fun f hf => f.exprs_eq ▸ ih f hf rfl
  | noResult _ ih => exact (ih rfl).append .nil
  | oneResult _ _ ihparams ihresult => exact (ihparams rfl).append ((ihresult rfl).append .nil)
  | results _ _ ihparams ihresults => exact (ihparams rfl).append (ihresults rfl)
  | typeOperand _ ih => exact ih rfl
  | funcLit _ _ _ ih => exact .expr rfl (ih rfl)
  | selector _ ih => exact .expr rfl (ih hexposed)
  -- of a suffix only the operand is exposed, its brackets shelter the rest
  | typeAssert _ _ ihx ihty =>
    exact .expr rfl ((ihx hexposed).append (.exprs? fun t ht => ihty t ht rfl))
  | index _ _ ih => exact .expr rfl (ih hexposed)
  | slice _ _ _ ih => exact .expr rfl (ih hexposed)
  | fullSlice _ _ _ _ ih => exact .expr rfl (ih hexposed)
  | call _ _ ih => exact .expr rfl (ih hexposed)
  | compositeLit _ hliteral _ ih =>
    -- in a header the type of a literal cannot be a name
    obtain rfl : _ = true := hexposed
    exact .expr (isNamedLiteral_of_isLiteralType hliteral) (ih rfl)
  | unary _ _ ih | star _ _ ih => exact .expr rfl (ih hexposed)
  | binary _ _ _ ihx ihy => exact .expr rfl ((ihx hexposed).append (ihy hexposed))
  | exprStmt _ ih | step _ ih => exact ih hexposed
  | send _ _ ihchan ihvalue => exact (ihchan hexposed).append (ihvalue hexposed)
  | assign _ _ _ ihlhs ihrhs =>
    exact .append (.exprsAll fun x hx => ihlhs x hx hexposed)
      (.exprsAll fun x hx => ihrhs x hx hexposed)
  | _ => simp [exposed] at hexposed

/-- **The header of every statement** is sheltered. -/
theorem sheltered_header {s : Stmt} (h : (Phrase.stmt s).Derived) : Sheltered s.header := by
  cases h with
  | simple hinner => cases hinner <;> exact .nil
  | ifStmt hinner =>
    cases hinner with
    | ifThen hinit hcond =>
      exact .append (.stmtExprs? fun a ha => (hinit a ha).sheltered rfl) (hcond.sheltered rfl)
  | switch hinit htag =>
    exact .append (.stmtExprs? fun a ha => (hinit a ha).sheltered rfl)
      (.exprs? fun x hx => (htag x hx).sheltered rfl)
  | typeSwitch hinit hguard =>
    exact .append (.stmtExprs? fun a ha => (hinit a ha).sheltered rfl) (hguard.sheltered rfl)
  | forLoop hinit hcond hpost =>
    exact .append (.append (.stmtExprs? fun a ha => (hinit a ha).sheltered rfl)
      (.exprs? fun x hx => (hcond x hx).sheltered rfl))
      (.stmtExprs? fun a ha => (hpost a ha).sheltered rfl)
  | rangeLoop hkey hvalue hrange =>
    exact .append (.append (.exprs? fun x hx => (hkey x hx).sheltered rfl)
      (.exprs? fun x hx => (hvalue x hx).sheltered rfl)) (hrange.sheltered rfl)
  | _ => exact .nil

end Derived

/-! ### The statements of a file of the grammar -/

/-- Every statement inside a phrase, function literals apart. -/
def stmts : Phrase → List Stmt
  | .block b => b.stmts
  | .simple _ s | .ifThen s | .elseBranch s | .stmt s => s.stmts
  | .caseClause c => c.stmts
  | .caseBlock b => b.stmts
  | .commClause c => c.stmts
  | .decl d => d.bodyStmts
  | _ => []

/-- **Every statement inside a phrase** is a statement of the grammar. -/
theorem Derived.of_mem_stmts {phrase : Phrase} {s : Stmt} (h : phrase.Derived)
    (hs : s ∈ phrase.stmts) : (Phrase.stmt s).Derived := by
  -- the first statement of a phrase is the phrase itself, the others stand in its parts
  induction h with
  | exprStmt hinner => exact List.mem_singleton.1 hs ▸ .simple (.exprStmt hinner)
  | send hchan hvalue => exact List.mem_singleton.1 hs ▸ .simple (.send hchan hvalue)
  | step hoperand => exact List.mem_singleton.1 hs ▸ .simple (.step hoperand)
  | assign hlhs hrhs hvalues =>
    exact List.mem_singleton.1 hs ▸ .simple (.assign hlhs hrhs hvalues)
  | empty => exact List.mem_singleton.1 hs ▸ .empty
  | declStmt hinner hkind => exact List.mem_singleton.1 hs ▸ .declStmt hinner hkind
  | goCall hinner hcall => exact List.mem_singleton.1 hs ▸ .goCall hinner hcall
  | deferCall hinner hcall => exact List.mem_singleton.1 hs ▸ .deferCall hinner hcall
  | returns hresults => exact List.mem_singleton.1 hs ▸ .returns hresults
  | branch => exact List.mem_singleton.1 hs ▸ .branch
  | simple _ ih | ifStmt _ ih | elseIf _ ih => exact ih hs
  | block _ ih =>
    obtain ⟨a, ha, hs⟩ := Stmt.mem_stmtsAll.1 hs
    exact ih a ha hs
  | labeled hinner ih =>
    rcases List.mem_cons.1 hs with rfl | hs
    · exact .labeled hinner
    · exact ih hs
  | blockStmt hinner ih | elseBlock hinner ih =>
    rcases List.mem_cons.1 hs with rfl | hs
    · exact .blockStmt hinner
    · exact ih hs
  | ifThen hinit hcond hbody horElse ihinit _ ihbody ihorElse =>
    simp only [stmts, Stmt.stmts, List.cons_append, List.mem_cons, List.mem_append,
      Stmt.mem_stmts?] at hs
    rcases hs with rfl | (⟨a, ha, hs⟩ | hs) | ⟨a, ha, hs⟩
    · exact .ifStmt (.ifThen hinit hcond hbody horElse)
    · exact ihinit a ha hs
    · exact ihbody hs
    · exact ihorElse a ha hs
  | switch hinit htag hbody ihinit _ ihbody =>
    simp only [stmts, Stmt.stmts, List.cons_append, List.mem_cons, List.mem_append,
      Stmt.mem_stmts?] at hs
    rcases hs with rfl | ⟨a, ha, hs⟩ | hs
    · exact .switch hinit htag hbody
    · exact ihinit a ha hs
    · exact ihbody hs
  | typeSwitch hinit hguard hisGuard hbody ihinit ihguard ihbody =>
    simp only [stmts, Stmt.stmts, List.cons_append, List.mem_cons, List.mem_append,
      Stmt.mem_stmts?] at hs
    rcases hs with rfl | (⟨a, ha, hs⟩ | hs) | hs
    · exact .typeSwitch hinit hguard hisGuard hbody
    · exact ihinit a ha hs
    · exact ihguard hs
    · exact ihbody hs
  | select hclauses ih =>
    rcases List.mem_cons.1 hs with rfl | hs
    · exact .select hclauses
    · obtain ⟨c, hc, hs⟩ := CommClause.mem_stmtsAll.1 hs
      exact ih c hc hs
  | forLoop hinit hcond hpost hbody ihinit _ ihpost ihbody =>
    simp only [stmts, Stmt.stmts, List.cons_append, List.mem_cons, List.mem_append,
      Stmt.mem_stmts?] at hs
    rcases hs with rfl | (⟨a, ha, hs⟩ | ⟨a, ha, hs⟩) | hs
    · exact .forLoop hinit hcond hpost hbody
    · exact ihinit a ha hs
    · exact ihpost a ha hs
    · exact ihbody hs
  | rangeLoop hkey hvalue hrange hbody htok hpair hop _ _ _ ihbody =>
    rcases List.mem_cons.1 hs with rfl | hs
    · exact .rangeLoop hkey hvalue hrange hbody htok hpair hop
    · exact ihbody hs
  | caseClause _ _ _ ih =>
    obtain ⟨a, ha, hs⟩ := Stmt.mem_stmtsAll.1 hs
    exact ih a ha hs
  | caseBlock _ ih =>
    obtain ⟨c, hc, hs⟩ := CaseClause.mem_stmtsAll.1 hs
    exact ih c hc hs
  | commClause _ _ ihcomm ih =>
    rcases List.mem_append.1 hs with hs | hs
    · obtain ⟨a, ha, hs⟩ := Stmt.mem_stmts?.1 hs
      exact ihcomm a ha hs
    · obtain ⟨a, ha, hs⟩ := Stmt.mem_stmtsAll.1 hs
      exact ih a ha hs
  | funcDecl _ _ _ _ _ _ ih =>
    obtain ⟨b, hb, hs⟩ := Block.mem_stmts?.1 hs
    exact ih b hb hs
  | _ => cases hs

end Phrase

/-- The body of a function literal of the grammar. -/
theorem Expr.Derived.body {ty : FuncType} {body : Block} (h : (Expr.funcLit ty body).Derived) :
    (Phrase.block body).Derived := by
  obtain ⟨header, least, h⟩ := h.exists_expr rfl
  cases h with
  | funcLit hsignature hfunc hbody => exact hbody
  | typeOperand htype =>
    cases htype with
    | named hname => cases hname

/-- **Every statement of a file of the grammar** is a statement of the grammar. -/
theorem File.Derived.of_mem_stmts {file : File} {s : Stmt} (h : file.Derived)
    (hs : s ∈ file.stmts) : (Phrase.stmt s).Derived := by
  rcases List.mem_append.1 hs with hs | hs
  · obtain ⟨d, hd, hs⟩ := List.mem_flatMap.1 hs
    exact (h d hd).of_mem_stmts hs
  · obtain ⟨e, he, hs⟩ := List.mem_flatMap.1 hs
    have he := h.of_mem_exprs he
    cases e with
    | funcLit ty body => exact he.body.of_mem_stmts hs
    | _ => cases hs

/-! ### Levels -/

/-- Whether a rule reads statements. -/
def Rule.readsStmt : Rule → Bool
  | .stmt | .ifThen => true
  | _ => false

namespace Grammar

open GoTree.Parser

/-- Every rule comes back to the level it started at, whether or not it fails. -/
theorem level_eq {s : ParserState} {n : Nat} (hn : 4 * s.left + 4 ≤ n) {α : Type}
    (p : Procedure α) : (p.reader (run n) s).2.level = s.level :=
  (p.steady (steadyBelow_run .all hn hn) (ready_all s)).reaches.level

/-- **The rules with an alarm:** where a statement starts at a negative level, the alarm is read
instead. -/
def guarded (alarm : Grammar) : Nat → Grammar
  | 0, _ => Parser.exhausted
  | n + 1, rule => fun s =>
    if rule.readsStmt = true ∧ s.level < 0 then alarm rule s else body (guarded alarm n) rule s

/-- At the levels of Go files there is no alarm. -/
theorem isRunAt_guarded (alarm : Grammar) : IsRunAt .headers (guarded alarm) := by
  intro n rule s hlevel
  -- the law allows statements at levels from zero on only
  have hquiet : ¬(rule.readsStmt = true ∧ s.level < 0) := by
    rintro ⟨hstmt, hneg⟩
    cases rule
    case stmt | ifThen => exact absurd hlevel (Int.not_le.2 hneg)
    all_goals cases hstmt
  exact if_neg hquiet

end Grammar

/-- **Composite literals in headers.**  Every rule leaves the expression level as it found it,
whether or not it fails.  No statement starts at a negative level: reading a text gives the same whatever is
read instead of such a statement.  And in every control statement of a file that was read, the
composite literals of named types in the header stand between brackets of the header. -/
theorem parse_headers (t : Text) :
    (∀ (s : ParserState) (n : Nat), 4 * s.left + 4 ≤ n → ∀ {α : Type} (p : Procedure α),
      (p.reader (Grammar.run n) s).2.level = s.level) ∧
    (∀ (alarm : Grammar) (n : Nat), 4 * (ParserState.ofText t).left + 4 ≤ n →
      (Grammar.guarded alarm n).file (ParserState.ofText t) =
        (Grammar.run n).file (ParserState.ofText t)) ∧
    ∀ file, parse t = .ok file → ∀ s ∈ file.stmts, ∀ c ∈ s.header, c.isNamedLiteral = true →
      ∃ b ∈ s.header, c ∈ b.enclosed := by
  refine ⟨fun s n hn _ p => Grammar.level_eq hn p, fun alarm n hn => ?_, fun file hfile s hs => ?_⟩
  · exact (steady_file_ofText .headers (Int.le_refl 0) (Grammar.steadyBelow_of_isRunAt
      (Grammar.isRunAt_run .headers) (Grammar.isRunAt_guarded alarm) hn hn)).same
  · exact ((derived_of_parse hfile).of_mem_stmts hs).sheltered_header

/-- A literal in parentheses in the condition of an `if`, in a function literal. -/
theorem parse_headers_paren :
    ∃ file s c b, parse "package p\nvar f = func() { if x == (T{1}) { } }\n".toList = .ok file ∧
      s ∈ file.stmts ∧ c ∈ s.header ∧ c.isNamedLiteral = true ∧ b ∈ s.header ∧
      c ∈ b.enclosed := by
  obtain ⟨file, hparse, hany⟩ :
      ∃ file, parse "package p\nvar f = func() { if x == (T{1}) { } }\n".toList = .ok file ∧
        (file.stmts.any fun s => s.header.any Expr.isNamedLiteral) = true := by
    refine exists_ok_and_of_any ?_
    decide +kernel
  obtain ⟨s, hs, hany⟩ := List.any_eq_true.1 hany
  obtain ⟨c, hc, hnamed⟩ := List.any_eq_true.1 hany
  obtain ⟨b, hb, hin⟩ := (parse_headers _).2.2 file hparse s hs c hc hnamed
  exact ⟨file, s, c, b, hparse, hs, hc, hnamed, hb, hin⟩

end GoTree
