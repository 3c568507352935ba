import GoTree.Proofs.Grammar.Parts
import GoTree.Proofs.Grammar.SteadyRun
import GoTree.Proofs.Mapping.Document

/-!
# Well-formed syntax trees

The type of syntax trees leaves room for trees that no text has: a bracket that is opened and not
closed, a pair with a key outside of a composite literal, an `else` before a loop.  What is read from
a text is none of these, in any of its parts.

## Main definitions

* `Place.allows`: the expressions that may stand in a place
* `FieldList.isWellFormed`, `GenDecl.isWellFormed`, `Expr.isWellFormed`, `Stmt.isWellFormed`: what the
  parts of a construct have to do with each other
* `Part.isWellFormed`: a part that may stand in its place

## Main results

* `Part.Derived.wellFormed`: what the grammar reads in a place may stand there
* `parse_wellFormed`: every part of a file read from a text is well-formed
-/

namespace GoTree

open GoTree.Grammar

/-! ### Well-formed parts -/

/-- **The expressions that may stand in a place.**  Three points stand alone as a length and before
an element type in a parameter; pairs with a key are elements of a composite literal; literals
without a type are elements, keys or values.  The types of methods, and they alone, are function
types without a keyword. -/
def Place.allows (place : Place) : Expr → Bool
  | .ellipsis _ none => place = .length
  | .ellipsis _ (some _) => place = .parameter
  | .keyValue _ _ _ => place = .element
  | .compositeLit none _ _ _ => place = .element || place = .entry
  | .funcType ty => decide (place = .method) == ty.func.isNone
  | _ => place ≠ .method

/-- Whether an expression is a function literal with its keyword, a slice with the bounds it must
have, or another construct. -/
def Expr.isWellFormed : Expr → Bool
  | .funcLit ty _ => ty.func.isSome
  | .slice _ _ _ high max true _ => high.isSome && max.isSome
  | .slice _ _ _ _ max false _ => max.isNone
  | _ => true

/-- **The lists of fields of a role.**  Brackets are opened and closed; only a single result without
a name needs none, and its type has no three points before it.  In a signature all fields between
brackets have names, or none has. -/
def FieldList.isWellFormed (role : FieldRole) : FieldList → Bool
  | ⟨some _, list, some _⟩ =>
    match role with
    | .params | .results => list.all (·.names.isEmpty) || list.all (!·.names.isEmpty)
    | .struct | .interface => true
  | ⟨none, [⟨[], ty, none⟩], none⟩ => role = .results && Place.allows .plain ty
  | _ => false

/-- **The specifications of a kind of declaration.**  A variable has a type or values, and a constant
with a type has values. -/
def Spec.isFor : DeclKind → Spec → Bool
  | .imports, .imported _ _ => true
  | .constants, .value _ ty values => ty.isNone || !values.isEmpty
  | .variables, .value _ ty values => ty.isSome || !values.isEmpty
  | .types, .type _ _ _ => true
  | _, _ => false

/-- Any number of specifications between parentheses, or a single one without them. -/
def GenDecl.isWellFormed : GenDecl → Bool
  | ⟨_, kind, some _, specs, some _⟩ => specs.all (Spec.isFor kind)
  | ⟨_, kind, none, [spec], none⟩ => spec.isFor kind
  | _ => false

/-- Whether an expression is a call. -/
def Expr.isCall : Expr → Bool
  | .call _ _ _ _ _ => true
  | _ => false

/-- Whether a statement may follow the body of an `if` after `else`. -/
def Stmt.isElseBranch : Stmt → Bool
  | .ifThen _ _ _ _ _ | .block _ => true
  | _ => false

/-- Whether a statement is a type guard, alone or as the one value that defines one variable. -/
def Stmt.isGuard : Stmt → Bool
  | .expr (.typeAssert _ _ none _) => true
  | .assign [_] ⟨_, .define⟩ [.typeAssert _ _ none _] => true
  | _ => false

/-- **What the parts of a statement have to do with each other.** -/
def Stmt.isWellFormed : Stmt → Bool
  | .ifThen _ _ _ _ orElse => orElse.all Stmt.isElseBranch
  | .goCall _ x | .deferCall _ x => x.unparen.isCall
  | .typeSwitch _ _ guard _ => guard.isGuard
  | .rangeLoop _ key value tok _ _ =>
    tok.isSome == key.isSome && (value.isNone || key.isSome) &&
      tok.all fun t => t.op = .define || t.op = .assign
  | _ => true

/-- **A part that may stand in its place.** -/
def Part.isWellFormed : Part → Bool
  | .expr place x => place.allows x && x.isWellFormed
  | .fields role list => list.isWellFormed role
  | .stmt s => s.isWellFormed
  | .genDecl d => d.isWellFormed
  | .spec kind s => s.isFor kind
  | .funcDecl d => d.ty.func.isNone
  | .field _ _ | .signature _ | .block _ | .caseClause _ | .commClause _ => true

/-! ### What the grammar reads -/

/-- What may stand anywhere may stand wherever no method is declared. -/
theorem Place.allows_of_plain {place : Place} {x : Expr} (h : Place.allows .plain x = true)
    (hplace : place ≠ .method) : place.allows x = true := by
  unfold allows at h ⊢
  split at h <;> simp_all

/-- Whatever is a key or a value may be an element. -/
theorem Place.element_allows {x : Expr} (h : Place.allows .entry x = true) :
    Place.allows .element x = true := by
  unfold allows at h ⊢
  split at h <;> simp_all

namespace Phrase.Derived

/-- **An expression in a role** may stand in the place of the role. -/
theorem allows {phrase : Phrase} {x : Expr} (h : phrase.Derived) (hx : phrase.expr? = some x) :
    phrase.place.allows x = true ∧ x.isWellFormed = true := by
  induction h with
  | named _ ih | typeOperand _ ih => exact ih hx
  -- these roles take what may stand in a plain place
  | parameter _ ih | length _ ih | value _ ih =>
    exact ⟨Place.allows_of_plain (ih hx).1 nofun, (ih hx).2⟩
  | element _ ih => exact ⟨Place.element_allows (ih hx).1, (ih hx).2⟩
  | funcType _ hfunc | methodType _ hfunc | funcLit _ hfunc =>
    obtain rfl := Option.some.inj hx
    simp [place, Place.allows, Expr.isWellFormed, hfunc]
  | _ =>
    cases hx <;> exact ⟨rfl, rfl⟩

/-- Parameters stand between brackets, and all of them have names or none has. -/
theorem isWellFormed_of_parameters {list : FieldList} (h : (Phrase.parameters list).Derived)
    (role : FieldRole) : list.isWellFormed role = true := by
  cases h with
  | unnamedParameters htypes => cases role <;> simp [FieldList.isWellFormed, unnamed]
  | namedParameters hnames =>
    cases role <;> simp [FieldList.isWellFormed]
    all_goals exact .inr fun f hf => (hnames f hf).1

theorem isFor {kind : DeclKind} {s : Spec} (h : (Phrase.spec kind s).Derived) :
    s.isFor kind = true := by
  cases h with
  | importSpec | typeSpec => rfl
  | valueSpec hkind _ _ _ hvariable hconstant =>
    rcases hkind with rfl | rfl
    · simpa [Spec.isFor, imp_iff_not_or] using hconstant rfl
    · simpa [Spec.isFor] using hvariable rfl

/-- The guard of a type switch. -/
theorem isGuard_of_isTypeSwitchGuard {s : Stmt} (h : isTypeSwitchGuard s = true) :
    s.isGuard = true := by
  unfold isTypeSwitchGuard at h
  split at h
  · rename_i x
    unfold isTypeGuard at h
    split at h
    · rfl
    · cases h
  · rename_i target pos x
    unfold isTypeGuard at h
    split at h
    · rfl
    · cases h
  · cases h

/-- **A statement of the grammar** is well-formed. -/
theorem isWellFormed_of_stmt {s : Stmt} (h : (Phrase.stmt s).Derived) : s.isWellFormed = true := by
  cases h with
  | simple hinner => cases hinner <;> rfl
  | ifStmt hinner =>
    cases hinner with
    | @ifThen _ _ orElse _ _ _ _ _ horElse =>
      cases orElse with
      | none => rfl
      | some s =>
        cases horElse s rfl with
        | elseIf hinner => cases hinner; rfl
        | elseBlock => rfl
  | goCall _ hcall | deferCall _ hcall =>
    obtain ⟨callee, lparen, args, dots, rparen, hcall⟩ := hcall
    simp [Stmt.isWellFormed, hcall, Expr.isCall]
  | typeSwitch _ _ hguard => exact isGuard_of_isTypeSwitchGuard hguard
  | @rangeLoop _ _ value tok _ _ _ _ _ _ htok hpair hop =>
    -- a second variable comes after a first, and both come with an operator
    have hvalue : value = none ∨ tok.isSome = true := by
      cases value with
      | none => exact .inl rfl
      | some v => exact .inr (htok.trans (hpair rfl))
    simpa [Stmt.isWellFormed, ← htok, Option.all_eq_true] using ⟨hvalue, hop⟩
  | _ => rfl

end Phrase.Derived

/-- **What the grammar reads in a place** may stand there. -/
theorem Part.Derived.wellFormed {part : Part} (h : part.Derived) : part.isWellFormed = true := by
  cases part with
  | expr place x =>
    obtain ⟨phrase, hphrase, hx, rfl⟩ := h
    rw [isWellFormed, Bool.and_eq_true]
    exact hphrase.allows hx
  | fields role list =>
    cases role with
    | params => exact Phrase.Derived.isWellFormed_of_parameters h .params
    | results =>
      rcases h with h | ⟨ty, rfl, htype⟩
      · exact h.isWellFormed_of_parameters .results
      · -- without brackets it is read as a type and not as a parameter
        have hplain : Place.allows .plain ty = true := (htype.allows rfl).1
        simpa [isWellFormed, FieldList.isWellFormed, unnamed] using hplain
    | struct | interface =>
      obtain ⟨opening, closing, hlist, -⟩ := h
      rw [hlist]
      rfl
  | stmt s => exact Phrase.Derived.isWellFormed_of_stmt h
  | genDecl d =>
    cases h with
    | singleDecl hspec => exact hspec.isFor
    | groupedDecl hspecs => exact List.all_eq_true.2 fun spec hspec => (hspecs spec hspec).isFor
  | spec kind s => exact Phrase.Derived.isFor h
  | funcDecl d =>
    cases h with
    | funcDecl _ _ hfunc => simp [isWellFormed, hfunc]
  | _ => rfl

/-- **Every part of a file read from a text is well-formed:** declarations, statements, expressions
and lists of fields, each in its place. -/
theorem parse_wellFormed {t : Text} {file : File} (h : parse t = .ok file) :
    ∀ part, file.Contains part → part.isWellFormed = true :=
  fun _ hpart => ((derived_of_parse h).of_contains hpart).wellFormed

/-- A call in parentheses after `go`, with a nested literal among its arguments. -/
theorem parse_wellFormed_go :
    ∃ file pos x,
      parse "package p\nfunc f(a int, b ...T) { go (g(T{k: {1}})) }\n".toList = .ok file ∧
      file.Contains (.stmt (.goCall pos x)) ∧ x.unparen.isCall = true := by
  obtain ⟨file, hparse, hfile⟩ :
      ∃ file, parse "package p\nfunc f(a int, b ...T) { go (g(T{k: {1}})) }\n".toList = .ok file ∧
        (file.decls.any fun d => d.part.children.any fun body =>
          body.children.any fun part => part.goCall?.isSome) = true := by
    refine exists_ok_and_of_any ?_
    decide +kernel
  obtain ⟨d, hd, hbodies⟩ := List.any_eq_true.1 hfile
  obtain ⟨body, hbody, hparts⟩ := List.any_eq_true.1 hbodies
  obtain ⟨part, hpart, hgo⟩ := List.any_eq_true.1 hparts
  obtain ⟨⟨pos, x⟩, heq⟩ := Option.isSome_iff_exists.1 hgo
  obtain rfl := Part.goCall?_eq_some_iff.1 heq
  have hcontains : file.Contains (.stmt (.goCall pos x)) :=
    ⟨d, hd, .child (.child .self hbody) hpart⟩
  exact ⟨file, pos, x, hparse, hcontains, parse_wellFormed hparse _ hcontains⟩

end GoTree
