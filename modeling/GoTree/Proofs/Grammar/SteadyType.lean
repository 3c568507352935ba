import GoTree.Proofs.Grammar.Steady

/-!
# Steady readers of types

One lemma for every rule of the grammar of types: where the readers of the recursive rules are
steady below a bound, so is the rule, and it reads a phrase of the grammar.

## Main results

* `Grammar.steady_signature`: what follows the name of a function
* `Grammar.steady_typeBody`: a type, if one starts here
-/

namespace GoTree

namespace Grammar

open GoTree.Parser

variable {law : LevelLaw} {m c : Nat} {header : Bool} {g g' : Grammar} {s : ParserState}

/-! ### Rules without recursion -/

theorem steady_ident : Steady s ident ident (Takes s fun _ => True) := by
  refine steady_isAt (fun hkind => ?_) fun _ => steady_failExpected
  exact (steady_take hkind).seq fun _ _ _ h => .pure ⟨h.1, trivial⟩

theorem steady_identList {allowed : Int → Prop} (hs : Ready allowed m header c s) :
    Steady s identList identList (Takes s (· ≠ [])) :=
  (steady_commaList_first hs fun _ _ => steady_ident).mono fun _ _ h => ⟨h.1, h.2.1⟩

theorem steady_basicLit : Steady s basicLit basicLit fun lit rest =>
    rest.length < s.left ∧ (current s).kind = .literal lit.kind := by
  refine steady_peekKind ?_
  split
  · rename_i kind hkind
    exact (steady_take hkind).seq fun _ _ _ h => .pure ⟨h.1, hkind⟩
  · exact steady_failExpected

theorem steady_typeName :
    Steady s typeName typeName (Takes s fun x => (Phrase.typeName x).Derived) := by
  refine steady_ident.seq fun name s₁ h₁ hname => ?_
  refine steady_isAt (fun hdot => ?_) fun _ => ?_
  · refine steady_peekSecond fun second => ?_
    split
    · refine (steady_take hdot).seq fun _ s₂ h₂ _ => ?_
      refine steady_ident.seq fun sel s₃ h₃ _ => ?_
      exact .pure ⟨Nat.lt_of_le_of_lt (h₂.trans h₃).left_le hname.1, .qualifiedName⟩
    · exact .pure ⟨hname.1, .plainName⟩
  · refine steady_peekSecond fun second => ?_
    rw [Bool.false_and, if_neg Bool.false_ne_true]
    exact .pure ⟨hname.1, .plainName⟩

theorem steady_withEnd {α : Type} {p p' : Parser α} {P : α → Prop}
    (hp : Steady s p p' (Takes s P)) : Steady s (withEnd p) (withEnd p') (Takes s P) := by
  refine hp.seq fun a s₁ _ ha => ?_
  refine steady_endStatement.seq fun _ s₂ h₂ _ => ?_
  exact .pure ⟨Nat.lt_of_le_of_lt h₂.left_le ha.1, ha.2⟩

theorem steady_fieldBlock {allowed : Int → Prop} {item item' : Parser Field} {P : Field → Prop}
    (hs : Ready allowed m header c s)
    (hitem : ∀ s', Ready allowed m header 4 s' → Steady s' item item' (Takes s' P)) :
    Steady s (fieldBlock item) (fieldBlock item') (Takes s fun fields =>
      ∃ opening list closing, fields = ⟨some opening, list, some closing⟩ ∧ ∀ f ∈ list, P f) := by
  refine .first hs steady_expect fun opening s₁ hs₁ _ => ?_
  refine .bind hs₁ (steady_untilKind hs₁ fun s' hs' _ => steady_withEnd (hitem s' hs')) ?_
  intro list s₂ hs₂ hlist
  refine .bind hs₂ steady_expect fun closing s₃ hs₃ _ => ?_
  exact .pure ⟨opening, list, closing, rfl, hlist⟩

/-! ### Types -/

section

variable (hg : SteadyBelow law m g g')

include hg

theorem steady_someType (hs : Ready law.expr m header 1 s) :
    Steady s g.someType g'.someType (Takes s fun x => (Phrase.type x).Derived) := by
  refine (hg.type hs).seq fun ty s₁ _ hty => ?_
  cases ty with
  | none => exact steady_failExpected
  | some x => exact .pure (hty x rfl)

theorem steady_exprList (hs : Ready law.expr m header 3 s) :
    Steady s g.exprList g'.exprList (Takes s fun list =>
      list ≠ [] ∧ ∀ x ∈ list, (Phrase.expr header 1 x).Derived) :=
  steady_commaList_first hs fun _ hs' => hg.expr hs'

theorem steady_arrayLength (hs : Ready law.expr m header 4 s) :
    Steady s (arrayType.arrayLength g) (arrayType.arrayLength g') fun len _ =>
      ∀ x ∈ len, (Phrase.length x).Derived := by
  refine steady_peekKind ?_
  split
  · exact .pure (by simp)
  · refine (steady_takePos ‹_›).seq fun pos _ _ _ => ?_
    refine .pure fun x hx => ?_
    rw [← Option.some.inj hx]
    exact .openLength
  · have hlen : Steady s (nested g.expr) (nested g'.expr) fun x _ => (Phrase.length x).Derived :=
      steady_nested hs fun inside s' hs' =>
        (hg.expr hs'.mono.expr).mono fun x _ hx => .length hx.2
    exact hlen.seq fun x _ _ hx => .pure (by simpa using hx)

theorem steady_arrayType (hs : Ready law.expr m header c s) :
    Steady s g.arrayType g'.arrayType (Takes s fun x => (Phrase.type x).Derived) := by
  refine .first hs steady_expect fun lbrack s₁ hs₁ _ => ?_
  refine .bind hs₁ (steady_arrayLength hg hs₁) fun len s₂ hs₂ hlen => ?_
  refine .bind hs₂ steady_expect fun _ s₃ hs₃ _ => ?_
  refine .bind hs₃ (steady_someType hg hs₃.mono) fun elt s₄ hs₄ helt => ?_
  exact .pure (.arrayType hlen helt.2)

theorem steady_mapType (hs : Ready law.expr m header c s) :
    Steady s g.mapType g'.mapType (Takes s fun x => (Phrase.type x).Derived) := by
  refine .first hs steady_expect fun pos s₁ hs₁ _ => ?_
  refine .bind hs₁ steady_expect fun _ s₂ hs₂ _ => ?_
  refine .bind hs₂ (steady_someType hg hs₂.mono) fun key s₃ hs₃ hkey => ?_
  refine .bind hs₃ steady_expect fun _ s₄ hs₄ _ => ?_
  refine .bind hs₄ (steady_someType hg hs₄.mono) fun value s₅ hs₅ hvalue => ?_
  exact .pure (.mapType hkey.2 hvalue.2)

theorem steady_chanType (hs : Ready law.expr m header c s) :
    Steady s g.chanType g'.chanType (Takes s fun x => (Phrase.type x).Derived) := by
  refine steady_isAt (fun harrow => ?_) fun _ => ?_
  · refine .first hs (steady_takePos harrow) fun arrow s₁ hs₁ _ => ?_
    refine .bind hs₁ steady_expect fun _ s₂ hs₂ _ => ?_
    refine .bind hs₂ (steady_someType hg hs₂.mono) fun value s₃ hs₃ hvalue => ?_
    exact .pure (.receiveType hvalue.2)
  · refine .first hs steady_expect fun begin s₁ hs₁ _ => ?_
    refine steady_isAt (fun harrow => ?_) fun _ => ?_
    · refine .bind hs₁ (steady_takePos harrow) fun arrow s₂ hs₂ _ => ?_
      refine .bind hs₂ (steady_someType hg hs₂.mono) fun value s₃ hs₃ hvalue => ?_
      exact .pure (.sendType hvalue.2)
    · refine .bind hs₁ (steady_someType hg hs₁.mono) fun value s₂ hs₂ hvalue => ?_
      exact .pure (.chanType hvalue.2)

/-! ### Structs -/

theorem steady_fieldBody (hs : Ready law.expr m header c s) :
    Steady s g.fieldBody g'.fieldBody (Takes s fun body =>
      ∀ tag, (Phrase.field ⟨body.1, body.2, tag⟩).Derived) := by
  refine steady_peekKind ?_
  split
  · refine .first hs (steady_takePos ‹_›) fun star s₁ hs₁ _ => ?_
    refine .bind hs₁ steady_typeName fun x s₂ hs₂ hx => ?_
    exact .pure fun _ => .embeddedPointer hx.2
  · refine steady_peekSecond fun second => ?_
    split
    · refine .first hs steady_typeName fun x s₁ hs₁ hx => ?_
      exact .pure fun _ => .embedded hx
    · refine .first hs (steady_identList hs) fun names s₁ hs₁ hnames => ?_
      refine .bind hs₁ (steady_someType hg hs₁.mono) fun ty s₂ hs₂ hty => ?_
      exact .pure fun _ => .namedField hnames hty.2
  · exact steady_failExpected

theorem steady_fieldDecl (hs : Ready law.expr m header c s) :
    Steady s g.fieldDecl g'.fieldDecl (Takes s fun f => (Phrase.field f).Derived) := by
  refine .first hs (steady_fieldBody hg hs) fun body s₁ hs₁ hbody => ?_
  refine steady_isAt (fun _ => ?_) fun _ => .pure (hbody none)
  refine .bind hs₁ steady_basicLit fun tag s₂ hs₂ _ => ?_
  exact .pure (hbody (some tag))

theorem steady_structType (hs : Ready law.expr m header c s) :
    Steady s g.structType g'.structType (Takes s fun x => (Phrase.type x).Derived) := by
  refine .first hs steady_expect fun pos s₁ hs₁ _ => ?_
  refine .bind hs₁ (steady_fieldBlock hs₁ fun s' hs' => steady_fieldDecl hg hs') ?_
  rintro _ s₂ hs₂ ⟨-, opening, list, closing, rfl, hlist⟩
  exact .pure (.structType hlist)

/-! ### Parameters -/

theorem steady_variadicType (hs : Ready law.expr m header 1 s) :
    Steady s g.variadicType g'.variadicType fun ty rest =>
      ∀ x ∈ ty, Takes s (fun x => (Phrase.parameter x).Derived) x rest := by
  refine steady_isAt (fun hdots => ?_) fun _ => ?_
  · refine .firstFound hs (steady_takePos hdots) fun pos s₁ hs₁ _ => ?_
    refine .bind hs₁ (steady_someType hg hs₁.mono) fun elt s₂ hs₂ helt => ?_
    exact .pure (by simpa using .variadic helt.2)
  · exact (hg.type hs).mono fun _ _ hty x hx => ⟨(hty x hx).1, .parameter (hty x hx).2⟩

theorem steady_someVariadicType (hs : Ready law.expr m header 1 s) :
    Steady s g.someVariadicType g'.someVariadicType
      (Takes s fun x => (Phrase.parameter x).Derived) := by
  refine (steady_variadicType hg hs).seq fun ty s₁ _ hty => ?_
  cases ty with
  | none => exact steady_failExpected
  | some x => exact .pure (hty x rfl)

omit hg in
theorem steady_entryNames (entries : List Expr) :
    Steady s (entryNames entries) (entryNames entries) fun names _ =>
      entries ≠ [] → names ≠ [] := by
  induction entries with
  | nil => exact .pure (by simp)
  | cons entry entries ih =>
    cases entry with
    | ident name => exact ih.seq fun names _ _ _ => .pure (by simp)
    | _ => exact steady_failAt nofun

theorem steady_parameterGroup (hs : Ready law.expr m header c s) :
    Steady s g.parameterGroup g'.parameterGroup (Takes s fun f =>
      (f.names ≠ [] ∧ f.tag = none) ∧ (Phrase.parameter f.ty).Derived) := by
  refine .first hs (steady_identList hs) fun names s₁ hs₁ hnames => ?_
  refine .bind hs₁ (steady_someVariadicType hg hs₁.mono) fun ty s₂ hs₂ hty => ?_
  exact .pure ⟨⟨hnames, rfl⟩, hty.2⟩

theorem steady_parameterFields (hs : Ready law.expr m header 4 s) :
    Steady s g.parameterFields g'.parameterFields fun list _ =>
      ∀ opening closing, (Phrase.parameters ⟨some opening, list, some closing⟩).Derived := by
  refine steady_isAt (fun _ => ?_) fun hparen => ?_
  · exact .pure fun _ _ => .unnamedParameters (List.forall_mem_nil _)
  · refine .bind hs (steady_commaList hs fun s' hs' => steady_someVariadicType hg hs'.mono) ?_
    rintro entries s₁ hs₁ ⟨hentries, hfirst⟩
    have hentry : entries ≠ [] := (hfirst (by simpa [closesParameters] using hparen)).2
    refine .bind hs₁ (steady_variadicType hg hs₁.mono) fun ty s₂ hs₂ hty => ?_
    cases ty with
    | none => exact .pure fun _ _ => .unnamedParameters hentries
    | some ty =>
      -- the entries were the names of the first group
      refine .bind hs₂ (steady_entryNames entries) fun names s₃ hs₃ hnames => ?_
      have hgroup := hnames hentry
      refine steady_eat hs₃ (fun s₄ hs₄ => ?_) ?_
      · refine .bind hs₄ (steady_commaList hs₄ fun s' hs' => steady_parameterGroup hg hs') ?_
        rintro groups s₅ hs₅ ⟨hgroups, -⟩
        refine .pure fun _ _ => .namedParameters ?_ ?_
        · exact List.forall_mem_cons.2 ⟨⟨hgroup, rfl⟩, fun f hf => (hgroups f hf).1⟩
        · exact List.forall_mem_cons.2 ⟨(hty ty rfl).2, fun f hf => (hgroups f hf).2⟩
      · refine .pure fun _ _ => .namedParameters ?_ ?_
        · simpa using hgroup
        · simpa using (hty ty rfl).2

theorem steady_parameters (hs : Ready law.expr m header c s) :
    Steady s g.parameters g'.parameters (Takes s fun list => (Phrase.parameters list).Derived) := by
  refine .first hs steady_expect fun opening s₁ hs₁ _ => ?_
  refine .bind hs₁ (steady_parameterFields hg hs₁) fun list s₂ hs₂ hlist => ?_
  refine .bind hs₂ steady_expect fun closing s₃ hs₃ _ => ?_
  exact .pure (hlist opening closing)

/-- **Parameters and results.** -/
theorem steady_signature (hs : Ready law.expr m header c s) (func : Option Offset) :
    Steady s (g.signature func) (g'.signature func)
      (Takes s fun ty => (Phrase.signature ty).Derived ∧ ty.func = func) := by
  refine .first hs (steady_parameters hg hs) fun params s₁ hs₁ hparams => ?_
  refine steady_isAt (fun _ => ?_) fun _ => ?_
  · refine .bind hs₁ (steady_parameters hg hs₁) fun results s₂ hs₂ hresults => ?_
    exact .pure ⟨.results hparams hresults.2, rfl⟩
  · refine .bind hs₁ (hg.type hs₁.mono) fun result s₂ hs₂ hresult => ?_
    cases result with
    | none => exact .pure ⟨.noResult hparams, rfl⟩
    | some ty => exact .pure ⟨.oneResult hparams (hresult ty rfl).2, rfl⟩

/-! ### Interfaces -/

theorem steady_methodSpec (hs : Ready law.expr m header c s) :
    Steady s g.methodSpec g'.methodSpec (Takes s fun f => (Phrase.method f).Derived) := by
  refine steady_isAt (fun _ => ?_) fun _ => steady_failExpected
  refine steady_peekSecond fun second => ?_
  split
  · refine .first hs steady_ident fun name s₁ hs₁ _ => ?_
    refine .bind hs₁ (steady_signature hg hs₁ none) fun ty s₂ hs₂ hty => ?_
    exact .pure (.method (.methodType hty.2.1 hty.2.2))
  · refine .first hs steady_typeName fun x s₁ hs₁ hx => ?_
    exact .pure (.embeddedInterface hx)

theorem steady_interfaceType (hs : Ready law.expr m header c s) :
    Steady s g.interfaceType g'.interfaceType (Takes s fun x => (Phrase.type x).Derived) := by
  refine .first hs steady_expect fun pos s₁ hs₁ _ => ?_
  refine .bind hs₁ (steady_fieldBlock hs₁ fun s' hs' => steady_methodSpec hg hs') ?_
  rintro _ s₂ hs₂ ⟨-, opening, list, closing, rfl, hlist⟩
  exact .pure (.interfaceType hlist)

/-! ### Any type -/

/-- **A type, if one starts here.** -/
theorem steady_typeBody (hs : Ready law.expr m header c s) :
    Steady s g.typeBody g'.typeBody fun ty rest =>
      ∀ x ∈ ty, Takes s (fun x => (Phrase.type x).Derived) x rest := by
  refine steady_peekKind ?_
  split
  · exact (steady_typeName.mono fun _ _ h => ⟨h.1, .named h.2⟩).found
  · exact (steady_arrayType hg hs).found
  · exact (steady_structType hg hs).found
  · refine .firstFound hs (steady_takePos ‹_›) fun star s₁ hs₁ _ => ?_
    refine .bind hs₁ (steady_someType hg hs₁.mono) fun x s₂ hs₂ hx => ?_
    exact .pure (by simpa using .pointerType hx.2)
  · refine .firstFound hs (steady_takePos ‹_›) fun func s₁ hs₁ _ => ?_
    refine .bind hs₁ (steady_signature hg hs₁ (some func)) ?_
    rintro ty s₂ hs₂ ⟨-, hty, hfunc⟩
    exact .pure (by simpa using .funcType hty (by rw [hfunc]; rfl))
  · exact (steady_interfaceType hg hs).found
  · exact (steady_mapType hg hs).found
  · exact (steady_chanType hg hs).found
  · exact (steady_chanType hg hs).found
  · refine .firstFound hs (steady_takePos ‹_›) fun lparen s₁ hs₁ _ => ?_
    refine .bind hs₁ (steady_someType hg hs₁.mono) fun x s₂ hs₂ hx => ?_
    refine .bind hs₂ steady_expect fun rparen s₃ hs₃ _ => ?_
    exact .pure (by simpa using .parenType hx.2)
  · exact .pure (by simp)

end

end Grammar

end GoTree
