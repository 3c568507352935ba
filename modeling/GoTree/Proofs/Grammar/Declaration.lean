import GoTree.Grammar.Declaration
import GoTree.Proofs.Grammar.Expression

/-!
# Declarations are spelled by their tokens

## Main results

* `Grammar.reads_genDecl`: import, constant, type and variable declarations
* `Grammar.reads_decl`: top-level declarations
-/

namespace GoTree

open GoTree.Parser

namespace Grammar

variable {g : Grammar} {s : ParserState} (hg : g.Spelled)

/-! ### Specifications -/

theorem reads_importName : Reads s importName fun name taken =>
    Spells taken (name.map Ident.recorded).toList [] := by
  refine reads_peekKind ?_
  split
  · refine reads_ident.map ?_
    rintro name _ ⟨token, rfl, hname⟩
    exact .singleton hname
  · rename_i hkind
    refine (reads_nextPos hkind (by simp)).bind ?_
    rintro _ s₁ _ ⟨dot, rfl, hdot, rfl⟩
    exact .pure (.symbol hdot (by simp))
  · exact .pure .nil

theorem reads_importSpec : Reads s importSpec fun spec taken =>
    Spells taken spec.recorded spec.exprs := by
  refine reads_importName.bind fun name s₁ taken hname => ?_
  refine reads_isAt (fun _ => ?_) fun _ => reads_failExpected _
  refine reads_basicLit.bind ?_
  rintro path s₂ _ ⟨token, rfl, hpath⟩
  have hall := hname.append (.singleton hpath)
  exact .pure (hall.congr (by simp) (by simp [Spec.recorded]) (by simp [Spec.exprs]))

include hg

theorem reads_specValues : Reads s g.specValues fun values taken =>
    Spells taken (values.flatMap Expr.recorded) (values.flatMap Expr.exprs) := by
  refine reads_eat (by simp) (fun assign s₁ hassign => ?_) fun _ => .pure .nil
  refine (reads_exprList hg).mono fun values taken h => ?_
  simpa using (Spells.implied hassign (by decide)).append h.spells

theorem reads_valueSpec (kind : DeclKind) : Reads s (g.valueSpec kind) fun spec taken =>
    Spells taken spec.recorded spec.exprs := by
  refine reads_identList.bind fun names s₁ taken hnames => ?_
  refine (hg .type s₁).bind fun ty s₂ tty hty => ?_
  refine (reads_specValues hg).bind fun values s₃ tvalues hvalues => ?_
  have hall := hnames.append ((Expr.ReadFrom?.spells hty).append hvalues)
  split
  · exact reads_failExpected _
  · split
    · exact reads_failExpected _
    · exact .pure (hall.congr (by simp) (by simp [Spec.recorded]) (by simp [Spec.exprs]))

theorem reads_typeSpec : Reads s g.typeSpec fun spec taken =>
    Spells taken spec.recorded spec.exprs := by
  refine reads_ident.bind ?_
  rintro name s₁ _ ⟨token, rfl, hname⟩
  refine reads_isAt (fun hkind => ?_) fun _ => ?_
  · refine (reads_nextPos hkind (by simp)).bind ?_
    rintro _ s₂ _ ⟨assign, rfl, hassign, rfl⟩
    refine (reads_someType hg).bind fun ty s₃ taken hty => .pure ?_
    have hall := (Spells.singleton hname).append
      ((Spells.symbol hassign (by simp)).append hty.spells)
    exact hall.congr (by simp) (by simp [Spec.recorded]) (by simp [Spec.exprs])
  · refine (reads_someType hg).bind fun ty s₂ taken hty => .pure ?_
    have hall := (Spells.singleton hname).append hty.spells
    exact hall.congr (by simp) (by simp [Spec.recorded]) (by simp [Spec.exprs])

theorem reads_spec : (kind : DeclKind) → Reads s (g.spec kind) fun spec taken =>
    Spells taken spec.recorded spec.exprs
  | .imports => reads_importSpec
  | .constants => reads_valueSpec hg .constants
  | .variables => reads_valueSpec hg .variables
  | .types => reads_typeSpec hg

/-! ### Declarations -/

/-- **A general declaration** after its keyword has been seen. -/
theorem reads_genDecl {kind : DeclKind} (hkind : (current s).kind = .keyword kind.keyword) :
    Reads s (g.genDecl kind) fun d taken => Spells taken d.recorded d.exprs := by
  refine (reads_nextPos hkind (by simp)).bind ?_
  rintro _ s₁ _ ⟨word, rfl, hword, rfl⟩
  refine reads_isAt (fun hparen => ?_) fun _ => ?_
  · refine (reads_nextPos hparen (by simp)).bind ?_
    rintro _ s₂ _ ⟨left, rfl, hleft, rfl⟩
    refine (reads_untilKind fun s _ => reads_withEnd (reads_spec hg kind)).bind
      fun specs s₃ taken hspecs => ?_
    refine (reads_expect (by simp)).bind ?_
    rintro _ s₄ _ ⟨right, rfl, hright, rfl⟩
    have hkeyword := Spells.keyword hword kind.isRecorded_keyword
    have hall := hkeyword.append ((Spells.symbol hleft (by simp)).append
      ((Spells.each hspecs).append (.symbol hright (by simp))))
    exact .pure (hall.congr (by simp) (by simp [GenDecl.recorded]) (by simp [GenDecl.exprs]))
  · refine (reads_spec hg kind).bind fun spec s₂ taken hspec => .pure ?_
    have hall := (Spells.keyword hword kind.isRecorded_keyword).append hspec
    exact hall.congr (by simp) (by simp [GenDecl.recorded]) (by simp [GenDecl.exprs])

theorem reads_receiver : Reads s g.receiver fun recv taken =>
    Spells taken ((recv.map (FieldList.recorded .leftParen .rightParen)).getD [])
      (FieldList.exprs? recv) := by
  refine reads_isAt (fun _ => ?_) fun _ => .pure .nil
  exact (reads_parameters hg).map fun recv taken h => h.spells

theorem reads_funcBody : Reads s g.funcBody fun body taken =>
    Spells taken ((body.map Block.recorded).getD []) ((body.map Block.exprs).getD []) := by
  refine reads_isAt (fun _ => ?_) fun _ => .pure .nil
  exact (reads_block hg).map fun body taken h => h

theorem reads_funcDecl : Reads s g.funcDecl fun d taken =>
    Spells taken d.recorded (Decl.func d).exprs := by
  refine (reads_expect (by simp)).bind ?_
  rintro _ s₁ _ ⟨func, rfl, hfunc, rfl⟩
  refine (reads_receiver hg).bind fun recv s₂ trecv hrecv => ?_
  refine reads_ident.bind ?_
  rintro name s₃ _ ⟨token, rfl, hname⟩
  refine reads_isAt (fun _ => reads_fail _) fun _ => ?_
  refine (reads_signature hg none).bind ?_
  rintro ty s₄ tty ⟨hty, -, -⟩
  refine (reads_funcBody hg).bind fun body s₅ tbody hbody => .pure ?_
  have hall := (Spells.keyword hfunc rfl).append
    (hrecv.append ((Spells.singleton hname).append (hty.append hbody)))
  exact hall.congr (by simp) (by simp [FuncDecl.recorded]) (by simp [Decl.exprs])

/-- **A top-level declaration** is spelled by its tokens. -/
theorem reads_decl : Reads s g.decl fun d taken => Spells taken d.recorded d.exprs := by
  refine reads_isAt (fun _ => ?_) fun _ => reads_peekKind ?_
  · exact (reads_funcDecl hg).map fun d taken h => h
  · split
    · rename_i kind hkind
      have hword : (current s).kind = .keyword kind.keyword := by
        unfold declKind? at hkind
        split at hkind
        · rename_i k hk
          rw [DeclKind.ofKeyword?_eq_some_iff] at hkind
          rw [hk, hkind]
        · simp at hkind
      exact (reads_genDecl hg hword).map fun d taken h => h
    · exact reads_failExpected _

end Grammar

end GoTree
