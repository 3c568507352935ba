import Mathlib.Data.List.Chain
import GoTree.Proofs.Grammar.Parts

/-!
# Where constructs begin and end

The start and the end of a construct are said twice: by its form, and by the tokens it records.  For
the constructs of the grammar both say the same.  A construct starts where its first recorded token
does and stops where its last one does, except where it ends in a statement that was left out: such
a statement has no token, so a label before it records no end.

## Main definitions

* `Recorded.first?`, `Recorded.last?`, `Recorded.Between`: where recorded tokens start and stop
* `Part.recorded`, `Part.Spans`: the tokens of a part, and its start and end by its form
* `Part.endsImplied`: whether a part ends in a statement that was left out

## Main results

* `Phrase.Derived.between`: expressions start and stop with their tokens
* `Part.Derived.between`: so do all parts that the grammar reads
-/

namespace GoTree

open GoTree.Grammar

namespace Recorded

/-- Where the first of several tokens starts. -/
def first? (list : List Recorded) : Option Offset :=
  list.head?.map pos

/-- Where the last of several tokens stops, as far as its stored text tells. -/
def last? (list : List Recorded) : Option Offset :=
  list.getLast?.map stop

variable {list more : List Recorded} {r : Recorded}

@[simp]
theorem first?_nil : first? [] = none := rfl

@[simp]
theorem first?_cons : first? (r :: list) = some r.pos := rfl

@[simp]
theorem first?_append : first? (list ++ more) = (first? list).or (first? more) := by
  cases list <;> simp [first?]

@[simp]
theorem last?_nil : last? [] = none := rfl

@[simp]
theorem last?_append : last? (list ++ more) = (last? more).or (last? list) := by
  rw [last?, List.getLast?_append, last?, last?]
  cases more.getLast? <;> rfl

@[simp]
theorem last?_cons : last? (r :: list) = (last? list).or (some r.stop) := by
  have happend : last? ([r] ++ list) = _ := last?_append
  exact happend

/-- Bounds do not depend on classes. -/
theorem first?_eq_of_untyped (h : list.map untyped = more.map untyped) :
    first? list = first? more := by
  have hfirst (list : List Recorded) : first? (list.map untyped) = first? list := by
    cases list <;> rfl
  rw [← hfirst list, h, hfirst]

theorem last?_eq_of_untyped (h : list.map untyped = more.map untyped) :
    last? list = last? more := by
  have hlast (list : List Recorded) : last? (list.map untyped) = last? list := by
    rw [last?, last?, List.getLast?_map, Option.map_map]
    rfl
  rw [← hlast list, h, hlast]

/-- **Tokens from one offset to another.** -/
@[mk_iff]
structure Between (list : List Recorded) (start stop : Offset) : Prop where
  first : first? list = some start
  last : last? list = some stop

theorem exists_between_cons (r : Recorded) (list : List Recorded) :
    ∃ stop, Between (r :: list) r.pos stop :=
  ⟨(last? list).getD r.stop, rfl, by cases hlast : last? list <;> simp [hlast]⟩

end Recorded

open Recorded

@[simp]
theorem Ident.pos_recorded (name : Ident) : name.recorded.pos = name.pos := rfl

@[simp]
theorem Ident.stop_recorded (name : Ident) : name.recorded.stop = name.stop := rfl

@[simp]
theorem BasicLit.pos_recorded (lit : BasicLit) : lit.recorded.pos = lit.pos := rfl

@[simp]
theorem BasicLit.stop_recorded (lit : BasicLit) : lit.recorded.stop = lit.stop := rfl

/-! ### Expressions -/

/-- What the start and the end of a phrase have to do with its tokens. -/
def Phrase.Bounded : Phrase → Prop
  | .typeName x | .type x | .length x | .parameter x | .methodType x =>
    Between x.recorded x.start x.stop
  | .expr _ _ x | .value x | .element x => Between x.recorded x.start x.stop
  | .parameters list => list.opening.isSome = true ∧ list.closing.isSome = true
  | .signature ty => ∃ start, ty.params.start? = some start ∧ Between ty.recorded start ty.stop
  | .block b => Between b.recorded b.lbrace b.stop
  | _ => True

/-- **Parameters and results** start at the parenthesis of the parameters and stop with the
results, or else with the parameters. -/
theorem FuncType.between {func : Option Offset} {params : FieldList} {results : Option FieldList}
    (hparams : (Phrase.parameters params).Bounded)
    (hresults : ∀ list ∈ results, ∃ stop, list.stop? = some stop ∧
      last? (list.recorded .leftParen .rightParen) = some stop) :
    (Phrase.signature ⟨func, params, results⟩).Bounded := by
  obtain ⟨opening, fields, closing⟩ := params
  obtain ⟨left, rfl⟩ := Option.isSome_iff_exists.1 hparams.1
  obtain ⟨right, rfl⟩ := Option.isSome_iff_exists.1 hparams.2
  refine ⟨left, rfl, by simp [FuncType.recorded, FieldList.recorded], ?_⟩
  cases results with
  | none =>
    simp [FuncType.recorded, FieldList.recordedResults, FieldList.recorded, FuncType.stop,
      FieldList.stop?]
  | some list =>
    obtain ⟨stop, hstop, hlast⟩ := hresults list rfl
    simp [FuncType.recorded, FieldList.recordedResults, FuncType.stop, hstop, hlast]

/-- **The start and the end of a phrase** are those of its tokens. -/
theorem Phrase.Derived.bounded {phrase : Phrase} (h : phrase.Derived) : phrase.Bounded := by
  induction h with
  | named _ ih | typeOperand _ ih | parameter _ ih | length _ ih | value _ ih | element _ ih =>
    exact ih
  | plainName | qualifiedName | ident | basicLit => exact ⟨rfl, rfl⟩
  | openLength => exact ⟨rfl, by simp [Expr.recorded?, Expr.stop]⟩
  | arrayType _ _ _ ih | pointerType _ ih | star _ _ ih | unary _ _ ih | variadic _ ih =>
    exact ⟨rfl, by simp [Expr.recorded?, Expr.stop, ih.last]⟩
  | mapType _ _ _ ih | chanType _ ih | sendType _ ih | receiveType _ ih =>
    exact ⟨rfl, by simp [Expr.stop, ih.last]⟩
  | structType | interfaceType =>
    exact ⟨rfl, by simp [FieldList.recorded, Expr.stop, FieldList.stop?]⟩
  | paren | parenType | untypedLit => exact ⟨rfl, by simp [Expr.stop]⟩
  -- the keyword stands before the parameters; without it the parameters come first
  | @funcType ty _ hfunc ih | @methodType ty _ hfunc ih =>
    obtain ⟨func, params, results⟩ := ty
    obtain ⟨start, hstart, hbetween⟩ := ih
    cases func <;> cases hfunc
    simp [Bounded, Expr.start, FuncType.start?, Expr.stop, hstart, hbetween.first, hbetween.last,
      between_iff]
  | unnamedParameters | namedParameters => exact ⟨rfl, rfl⟩
  | noResult _ ih => exact FuncType.between ih (by simp)
  | @oneResult _ _ ty _ _ ihparams ihresult =>
    refine FuncType.between ihparams ?_
    rintro _ ⟨⟩
    exact ⟨ty.stop, rfl, by simp [FieldList.recorded, Field.recorded, unnamed, ihresult.last]⟩
  | @results _ _ list _ _ ihparams ihresults =>
    refine FuncType.between ihparams ?_
    rintro _ ⟨⟩
    obtain ⟨opening, fields, closing⟩ := list
    obtain ⟨right, rfl⟩ := Option.isSome_iff_exists.1 ihresults.2
    exact ⟨right + 1, rfl, by simp [FieldList.recorded]⟩
  | @funcLit _ _ ty _ _ hfunc _ _ ih =>
    obtain ⟨func, hfunc⟩ := Option.isSome_iff_exists.1 hfunc
    exact ⟨by simp [Expr.start, hfunc], by simp [Expr.stop, ih.last]⟩
  -- what has an operand starts with it and stops with its own last token
  | selector _ ih | typeAssert _ _ ih | index _ _ ih | slice _ _ _ ih | fullSlice _ _ _ _ ih
    | call _ _ ih | compositeLit _ _ _ ih =>
    exact ⟨by simp [Expr.recorded?, Expr.start, ih.first], by simp [Expr.stop]⟩
  | keyValue _ _ ihkey ihvalue | binary _ _ _ ihkey ihvalue =>
    exact ⟨by simp [Expr.start, ihkey.first], by simp [Expr.stop, ihvalue.last]⟩
  | block => exact ⟨rfl, by simp [Block.recorded, Block.stop]⟩
  | _ => trivial

/-- **An expression of the grammar** starts and stops with its tokens. -/
theorem Phrase.Derived.between {phrase : Phrase} {x : Expr} (h : phrase.Derived)
    (hx : phrase.expr? = some x) : Between x.recorded x.start x.stop := by
  have hbounded := h.bounded
  cases phrase <;> cases hx <;> exact hbounded

/-! ### Lists of constructs -/

theorem last?_map_recorded (names : List Ident) :
    last? (names.map Ident.recorded) = names.getLast?.map Ident.stop := by
  rw [last?, List.getLast?_map, Option.map_map]
  rfl

/-- Several expressions start with the first of them, and stop with the last. -/
theorem between_flatMap {list : List Expr} (h : ∀ x ∈ list, Between x.recorded x.start x.stop) :
    first? (list.flatMap Expr.recorded) = list.head?.map Expr.start ∧
      last? (list.flatMap Expr.recorded) = list.getLast?.map Expr.stop := by
  induction list with
  | nil => exact ⟨rfl, rfl⟩
  | cons x list ih =>
    rw [List.forall_mem_cons] at h
    refine ⟨by simp [h.1.first], ?_⟩
    rw [List.flatMap_cons, last?_append, (ih h.2).2, h.1.last, List.getLast?_cons]
    cases list.getLast? <;> rfl

/-! ### Statements -/

/-- The clauses of a switch stop with their brace. -/
theorem CaseBlock.last?_recorded (b : CaseBlock) (list : List Recorded) :
    last? (list ++ b.recorded) = some (b.rbrace + 1) := by
  obtain ⟨lbrace, clauses, rbrace⟩ := b
  simp [CaseBlock.recorded]

/-- Tokens one after the other. -/
def Recorded.InOrder (list : List Recorded) : Prop :=
  list.IsChain fun a b => a.stop ≤ b.pos

/-- The order does not depend on classes. -/
theorem Recorded.InOrder.of_untyped {list more : List Recorded} (hlist : InOrder list)
    (h : list.map untyped = more.map untyped) : InOrder more := by
  have horder (list : List Recorded) : InOrder (list.map untyped) ↔ InOrder list :=
    List.isChain_map untyped
  rwa [← horder more, ← h, horder]

/-- Tokens in order stop after they start. -/
theorem Recorded.Between.le {list : List Recorded} {start stop : Offset}
    (h : Between list start stop) (hlist : InOrder list) : start ≤ stop := by
  obtain ⟨hfirst, hlast⟩ := h
  induction list generalizing start with
  | nil => cases hfirst
  | cons r list ih =>
    obtain rfl := Option.some.inj hfirst
    cases list with
    | nil =>
      obtain rfl := Option.some.inj hlast
      exact r.pos_le_stop
    | cons next list =>
      obtain ⟨hle, hlist⟩ := List.isChain_cons_cons.1 hlist
      calc r.pos ≤ r.stop := r.pos_le_stop
        _ ≤ next.pos := hle
        _ ≤ stop := ih hlist rfl (by simpa using hlast)

/-- When the tokens have characters, they stop later than they start. -/
theorem Recorded.Between.lt {list : List Recorded} {start stop : Offset}
    (h : Between list start stop) (hlist : InOrder list) (hfull : ∀ r ∈ list, r.pos < r.stop) :
    start < stop := by
  obtain ⟨hfirst, hlast⟩ := h
  cases list with
  | nil => cases hfirst
  | cons r list =>
    obtain rfl := Option.some.inj hfirst
    have hlt := hfull r List.mem_cons_self
    cases list with
    | nil =>
      obtain rfl := Option.some.inj hlast
      exact hlt
    | cons next list =>
      obtain ⟨hle, hlist⟩ := List.isChain_cons_cons.1 hlist
      calc r.pos < r.stop := hlt
        _ ≤ next.pos := hle
        _ ≤ stop := Between.le ⟨rfl, by simpa using hlast⟩ hlist

/-- Whether a statement ends in one that was left out. -/
def Stmt.endsImplied : Stmt → Bool
  | .empty e => e.implicit
  | .labeled _ _ s => s.endsImplied
  | _ => false

namespace Phrase.Derived

/-- A specification stops with its tokens. -/
theorem betweenSpec {kind : DeclKind} {s : Spec} (h : (Phrase.spec kind s).Derived) :
    ∃ start, Between s.recorded start s.stop := by
  cases h with
  | @importSpec name path =>
    cases name <;> exact ⟨_, rfl, by simp [Spec.recorded, Spec.stop]⟩
  | @valueSpec _ _ names ty values _ hnames htype hvalues =>
    obtain ⟨name, rest, rfl⟩ := List.exists_cons_of_ne_nil hnames
    refine ⟨name.pos, by simp [Spec.recorded], ?_⟩
    have hvalues := (between_flatMap fun x hx => (hvalues x hx).between rfl).2
    rw [Spec.recorded, last?_append, last?_append, Expr.recordedAll_eq, hvalues,
      last?_map_recorded, Spec.stop]
    cases hlast : values.getLast? with
    | some last => rfl
    | none =>
      cases ty with
      | some ty => simp [Expr.recorded?, ((htype ty rfl).between rfl).last]
      | none => simp [Expr.recorded?, List.getLast?_cons]
  | typeSpec htype => exact ⟨_, rfl, by simp [Spec.recorded, Spec.stop, (htype.between rfl).last]⟩

theorem betweenGenDecl {d : GenDecl} (h : (Phrase.genDecl d).Derived) :
    Between d.recorded d.tokPos d.stop := by
  cases h with
  | singleDecl hspec =>
    obtain ⟨start, hbetween⟩ := hspec.betweenSpec
    exact ⟨rfl, by simp [GenDecl.recorded, GenDecl.stop, hbetween.last]⟩
  | groupedDecl => exact ⟨rfl, by simp [GenDecl.recorded, GenDecl.stop]⟩

theorem betweenSimple {header : Bool} {s : Stmt} (h : (Phrase.simple header s).Derived) :
    Between s.recorded s.start s.stop := by
  cases h with
  | exprStmt hinner => exact hinner.between rfl
  | send hchan hvalue =>
    exact ⟨by simp [Stmt.start, (hchan.between rfl).first],
      by simp [Stmt.stop, (hvalue.between rfl).last]⟩
  | step hoperand => exact ⟨by simp [Stmt.start, (hoperand.between rfl).first], by simp [Stmt.stop]⟩
  | @assign _ lhs rhs tok hlhs hrhs hvalues =>
    have hfirst := (between_flatMap fun x hx => (hlhs x hx).between rfl).1
    have hlast := (between_flatMap fun x hx => (hrhs x hx).between rfl).2
    rw [List.getLast?_eq_some_getLast hvalues] at hlast
    constructor
    · cases hhead : lhs.head? <;> simp [Stmt.start, hfirst, hhead]
    · simp [Stmt.stop, hlast, List.getLast?_eq_some_getLast hvalues]

/-- **A statement** that ends in no statement left out starts and stops with its tokens. -/
theorem betweenStmt {s : Stmt} (h : (Phrase.stmt s).Derived) (himplied : s.endsImplied = false)
    (hlist : InOrder s.recorded) : Between s.recorded s.start s.stop := by
  cases h with
  | simple hinner => exact hinner.betweenSimple
  | @empty e =>
    have himplicit : e.implicit = false := himplied
    simp [Stmt.start, Stmt.stop, himplicit, between_iff]
  | @labeled label colon s hinner =>
    obtain ⟨-, hlist, hcolon⟩ := List.isChain_append.1
      (show InOrder ([label.recorded, symbol colon .colon] ++ s.recorded) from hlist)
    have hbetween := betweenStmt hinner himplied hlist
    -- the statement stands after the colon, so it is what stops last
    have hle : colon + 1 ≤ s.stop := by
      obtain ⟨r, hr, hstart⟩ := Option.map_eq_some_iff.1 hbetween.first
      calc colon + 1 = (symbol colon .colon).stop := (stop_colon colon).symm
        _ ≤ r.pos := hcolon _ rfl r hr
        _ = s.start := hstart
        _ ≤ s.stop := hbetween.le hlist
    exact ⟨rfl, by simp [Stmt.stop, hbetween.last, hle]⟩
  | declStmt hinner => exact hinner.betweenGenDecl
  | goCall hinner | deferCall hinner =>
    exact ⟨rfl, by simp [Stmt.stop, (hinner.between rfl).last]⟩
  | @returns _ _ results hresults =>
    have hlast := (between_flatMap fun x hx => (hresults x hx).between rfl).2
    exact ⟨rfl, by cases hresult : results.getLast? <;> simp [Stmt.stop, hlast, hresult]⟩
  | @branch _ _ label => exact ⟨rfl, by cases label <;> simp [Stmt.stop]⟩
  | blockStmt hinner => exact hinner.bounded
  | ifStmt hinner =>
    cases hinner with
    | @ifThen _ _ orElse cond body _ _ hbody horElse =>
      cases orElse with
      | none => exact ⟨rfl, by simp [Stmt.recorded?, Stmt.stop, hbody.bounded.last]⟩
      | some s =>
        have hlast : last? s.recorded = some s.stop := by
          cases horElse s rfl with
          | elseIf hinner =>
            refine (betweenStmt (.ifStmt hinner) ?_ ?_).last
            · cases hinner; rfl
            · exact List.IsChain.right_of_append hlist
          | elseBlock hinner => exact hinner.bounded.last
        exact ⟨rfl, by simp [Stmt.recorded?, Stmt.stop, hlast]⟩
  | switch | typeSwitch => exact ⟨rfl, CaseBlock.last?_recorded _ _⟩
  | select => exact ⟨rfl, by simp [Stmt.stop]⟩
  | forLoop _ _ _ hbody | rangeLoop _ _ _ hbody =>
    exact ⟨rfl, by simp [Stmt.stop, hbody.bounded.last]⟩
termination_by sizeOf s

end Phrase.Derived

/-! ### Parts -/

/-- A field starts with its first name or its type and stops with its tag or its type. -/
theorem Field.between {f : Field} (h : Between f.ty.recorded f.ty.start f.ty.stop) :
    Between f.recorded f.start f.stop := by
  obtain ⟨names, ty, tag⟩ := f
  have hlast : last? ty.recorded = some ty.stop := h.last
  constructor
  · cases names with
    | nil => simpa [Field.recorded, Field.start] using .inl h.first
    | cons name rest => rfl
  · cases tag <;> simp [Field.recorded, Field.stop, hlast]

/-- A list of fields starts and stops with its brackets, or with its only field. -/
theorem FieldList.between {role : FieldRole} {list : FieldList} (h : list.DerivedAs role) :
    ∃ start stop, list.start? = some start ∧ list.stop? = some stop ∧
      Between (list.recorded role.brackets.1 role.brackets.2) start stop := by
  have hbrackets {opening closing : Offset} {fields : List Field} :
      Between (FieldList.recorded role.brackets.1 role.brackets.2
        ⟨some opening, fields, some closing⟩) opening (closing + 1) := by
    cases role <;> constructor <;> simp [FieldList.recorded, FieldRole.brackets]
  have hparameters {list : FieldList} (h : (Phrase.parameters list).Derived) :
      ∃ start stop, list.start? = some start ∧ list.stop? = some stop ∧
        Between (list.recorded role.brackets.1 role.brackets.2) start stop := by
    cases h <;> exact ⟨_, _, rfl, rfl, hbrackets⟩
  cases role with
  | params => exact hparameters h
  | results =>
    rcases h with h | ⟨ty, rfl, hty⟩
    · exact hparameters h
    · have hfield := Field.between (f := unnamed ty) (hty.between rfl)
      exact ⟨_, _, rfl, rfl, by simpa [FieldList.recorded] using hfield⟩
  | struct | interface =>
    obtain ⟨opening, closing, hlist, -⟩ := h
    rw [hlist]
    exact ⟨_, _, rfl, rfl, hbrackets⟩

namespace Part

/-- **The tokens a part records**, in source order. -/
def recorded : Part → List Recorded
  | .expr _ x => x.recorded
  | .field _ f => f.recorded
  | .fields role list => list.recorded role.brackets.1 role.brackets.2
  | .signature ty => ty.recorded
  | .block b => b.recorded
  | .stmt s => s.recorded
  | .caseClause clause => clause.recorded
  | .commClause clause => clause.recorded
  | .genDecl d => d.recorded
  | .spec _ s => s.recorded
  | .funcDecl d => d.recorded

/-- **Where a part starts and stops by its form.**  Of signatures and specifications the form only
tells the end, and nothing of clauses and functions. -/
def Spans (start stop : Offset) : Part → Prop
  | .expr _ x => start = x.start ∧ stop = x.stop
  | .field _ f => start = f.start ∧ stop = f.stop
  | .fields _ list => list.start? = some start ∧ list.stop? = some stop
  | .signature ty => stop = ty.stop
  | .block b => start = b.lbrace ∧ stop = b.stop
  | .stmt s => start = s.start ∧ stop = s.stop
  | .genDecl d => start = d.tokPos ∧ stop = d.stop
  | .spec _ s => stop = s.stop
  | .caseClause _ | .commClause _ | .funcDecl _ => True

/-- Whether a part ends in a statement that was left out. -/
def endsImplied : Part → Bool
  | .stmt s => s.endsImplied
  | _ => false

/-- **A part that the grammar reads** starts and stops with its tokens, unless it ends in a statement
that was left out. -/
theorem Derived.between {part : Part} (h : part.Derived) (himplied : part.endsImplied = false)
    (hlist : InOrder part.recorded) :
    ∃ start stop, Between part.recorded start stop ∧ part.Spans start stop := by
  cases part with
  | expr place x =>
    obtain ⟨phrase, hphrase, hx, -⟩ := h
    exact ⟨_, _, hphrase.between hx, rfl, rfl⟩
  | field role f =>
    obtain ⟨phrase, hphrase, hx, -⟩ := fieldType h
    exact ⟨_, _, Field.between (hphrase.between hx), rfl, rfl⟩
  | fields role list =>
    obtain ⟨start, stop, hstart, hstop, hbetween⟩ := FieldList.between h
    exact ⟨start, stop, hbetween, hstart, hstop⟩
  | signature ty =>
    obtain ⟨start, -, hbetween⟩ := Phrase.Derived.bounded h
    exact ⟨start, ty.stop, hbetween, rfl⟩
  | block b => exact ⟨_, _, Phrase.Derived.bounded h, rfl, rfl⟩
  | stmt s => exact ⟨_, _, Phrase.Derived.betweenStmt h himplied hlist, rfl, rfl⟩
  | genDecl d => exact ⟨_, _, Phrase.Derived.betweenGenDecl h, rfl, rfl⟩
  | spec kind s =>
    obtain ⟨start, hbetween⟩ := Phrase.Derived.betweenSpec h
    exact ⟨start, s.stop, hbetween, rfl⟩
  | caseClause clause =>
    -- a clause starts with its keyword, and it does not matter where it stops
    obtain ⟨pos, list, colon, body⟩ := clause
    obtain ⟨stop, hbetween⟩ := exists_between_cons _ _
    exact ⟨_, stop, hbetween, trivial⟩
  | commClause clause =>
    obtain ⟨pos, comm, colon, body⟩ := clause
    obtain ⟨stop, hbetween⟩ := exists_between_cons _ _
    exact ⟨_, stop, hbetween, trivial⟩
  | funcDecl d =>
    obtain ⟨stop, hbetween⟩ := exists_between_cons _ _
    exact ⟨_, stop, hbetween, trivial⟩

end Part

end GoTree
