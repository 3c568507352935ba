import GoTree.Grammar.Type
import GoTree.Proofs.Grammar.Spelling

/-!
# Types are spelled by their tokens

Given readers for the recursive rules whose results are spelled by the tokens they take, so are the
results of every rule of the grammar of types.

## Main definitions

* `Expr.ReadFrom`: an expression spelled by some tokens, which it starts and stops with
* `ExprsFrom`, `FuncType.ReadFrom`: several expressions, and parameters and results
* `Rule.Spelled`, `Grammar.Spelled`: what the recursive rules have to guarantee

## Main results

* `Grammar.reads_parameters`, `Grammar.reads_signature`: parameters and results
* `Grammar.reads_typeBody`: types
-/

namespace GoTree

open GoTree.Parser

/-- **An expression read from some tokens:** they spell it, and start and stop where it does. -/
structure Expr.ReadFrom (e : Expr) (tokens : List Token) : Prop where
  spells : Spells tokens e.recorded e.exprs
  starts : StartsAt tokens e.start
  stops : StopsAt tokens e.stop

/-- A plain expression by the parts it is read from. -/
theorem Expr.ReadFrom.of_spells {e : Expr} {tokens taken : List Token} {recorded : List Recorded}
    {exprs : List Expr} (h : Spells taken recorded exprs) (htokens : taken = tokens)
    (hrecorded : recorded = e.recorded) (hexprs : e :: exprs = e.exprs)
    (hplain : e.isPlain = true)
    (hstart : StartsAt taken e.start) (hstop : StopsAt taken e.stop) : e.ReadFrom tokens := by
  subst htokens
  exact ⟨(h.cons_plain hplain).congr rfl hrecorded hexprs, hstart, hstop⟩

theorem Expr.ReadFrom.located {e : Expr} {tokens : List Token} (h : e.ReadFrom tokens) :
    Located tokens e.start e.stop :=
  .of_delimits h.starts h.stops

/-- An expression that is read from some tokens, or absent and read from none. -/
def Expr.ReadFrom? (tokens : List Token) : Option Expr → Prop
  | none => tokens = []
  | some e => e.ReadFrom tokens

theorem Expr.ReadFrom?.spells {tokens : List Token} {e : Option Expr}
    (h : Expr.ReadFrom? tokens e) : Spells tokens (Expr.recorded? e) (Expr.exprs? e) := by
  cases e with
  | none =>
    obtain rfl : tokens = [] := h
    exact .nil
  | some e => exact Expr.ReadFrom.spells h

/-- **Several expressions read from some tokens,** with commas between them: each is among the
tokens, and they start with the first and stop with the last. -/
structure ExprsFrom (list : List Expr) (tokens : List Token) : Prop where
  spells : Spells tokens (list.flatMap Expr.recorded) (list.flatMap Expr.exprs)
  ne_nil : list ≠ []
  located : ∀ x ∈ list, Located tokens x.start x.stop
  starts : ∀ first ∈ list.head?, StartsAt tokens first.start
  stops : ∀ last ∈ list.getLast?, StopsAt tokens last.stop

/-- A list of fields read from some tokens, with a bracket or a field at the end. -/
structure FieldList.ReadFrom (list : FieldList) (left right : Symbol) (tokens : List Token) :
    Prop where
  spells : Spells tokens (list.recorded left right) list.exprs
  stops : ∃ stop, list.stop? = some stop ∧ StopsAt tokens stop

/-- Parameters and results read from some tokens. -/
structure FuncType.ReadFrom (ty : FuncType) (func : Option Offset) (tokens : List Token) :
    Prop where
  spells : Spells tokens ty.recorded ty.exprs
  func : ty.func = func
  stops : StopsAt tokens ty.stop

/-- What the recursive rules have to guarantee. -/
def Rule.Spelled : (rule : Rule) → rule.Result → List Token → Prop
  | .expr _, e, taken => Expr.ReadFrom e taken
  | .unary, e, taken => Expr.ReadFrom e taken
  | .type, e, taken => Expr.ReadFrom? taken e
  | .literal ty, e, taken => ∀ before, Expr.ReadFrom? before ty → Expr.ReadFrom e (before ++ taken)
  | .stmt, s, taken => Spells taken (Stmt.recorded s) (Stmt.exprs s)
  | .ifThen, s, taken => Spells taken (Stmt.recorded s) (Stmt.exprs s)

/-- **Readers whose results are spelled** by the tokens they take. -/
def Grammar.Spelled (g : Grammar) : Prop :=
  ∀ rule s, Reads s (g rule) rule.Spelled

namespace Parser

variable {s : ParserState}

/-! ### Names and literals -/

theorem reads_ident : Reads s ident fun name taken =>
    ∃ token, taken = [token] ∧ name.recorded.Denotes token := by
  refine reads_isAt (fun hkind => ?_) fun _ => reads_failExpected _
  refine (reads_next hkind (by simp)).bind ?_
  rintro token s' _ ⟨-, rfl, hname⟩
  exact .pure ⟨token, rfl, rfl, by simp [Token.stored?, hname, Ident.recorded],
    by simp [Token.Kind.tokenClass, hname, Ident.recorded], by simp [hname], by simp [hname]⟩

theorem reads_basicLit : Reads s basicLit fun lit taken =>
    ∃ token, taken = [token] ∧ lit.recorded.Denotes token := by
  refine reads_peekKind ?_
  split
  · rename_i kind hkind
    refine (reads_next hkind (by simp)).bind ?_
    rintro token s' _ ⟨-, rfl, hlit⟩
    exact .pure ⟨token, rfl, rfl, by simp [Token.stored?, hlit, BasicLit.recorded],
      by simp [Token.Kind.tokenClass, hlit, BasicLit.recorded], by simp [hlit], by simp [hlit]⟩
  · exact reads_failExpected _

theorem reads_identList : Reads s identList fun names taken =>
    Spells taken (names.map Ident.recorded) [] := by
  have hitem : ∀ s, Reads s ident fun name taken => Spells taken [name.recorded] [] := by
    intro s
    refine reads_ident.mono ?_
    rintro name _ ⟨token, rfl, hdenotes⟩
    exact .singleton hdenotes
  refine (reads_commaList fun s _ => hitem s).mono fun names taken h => ?_
  have hspells := Spells.separated h.1
  rw [← List.map_eq_flatMap] at hspells
  exact hspells.of_not_plain (by simp)

end Parser

namespace Grammar

variable {g : Grammar} {s : ParserState} (hg : g.Spelled)

/-! ### Plain types -/

theorem reads_typeName : Reads s typeName fun e taken => e.ReadFrom taken := by
  refine reads_ident.bind ?_
  rintro name s₁ _ ⟨token, rfl, hname⟩
  have hplain : Expr.ReadFrom (.ident name) [token] :=
    .of_spells (.singleton hname) rfl rfl rfl rfl ⟨token, rfl, hname.pos.symm⟩ (.singleton hname)
  refine reads_isAt (fun hdot => reads_peekSecond fun kind => ?_)
    fun _ => reads_peekSecond fun kind => .pure hplain
  split
  · refine (reads_next hdot (by simp)).bind ?_
    rintro dot s₂ _ ⟨-, rfl, hdot'⟩
    refine reads_ident.bind ?_
    rintro sel s₃ _ ⟨token', rfl, hsel⟩
    have hall := hplain.spells.append ((Spells.implied hdot' (by decide)).append (.singleton hsel))
    exact .pure (.of_spells hall (by simp) (by simp) (by simp) rfl
      ⟨token, rfl, hname.pos.symm⟩ (.append _ (.append _ (.singleton hsel))))
  · exact .pure hplain

include hg

theorem reads_someType : Reads s g.someType fun e taken => e.ReadFrom taken := by
  refine (hg .type s).bind fun ty s' taken hty => ?_
  cases ty with
  | none => exact reads_failExpected _
  | some ty =>
    refine .pure ?_
    rw [List.append_nil]
    exact hty

theorem reads_expr : Reads s g.expr fun e taken => e.ReadFrom taken :=
  hg (.expr 1) s

theorem reads_exprList : Reads s g.exprList ExprsFrom := by
  refine (reads_commaList fun s _ => reads_expr hg).mono fun list taken ⟨hlist, hne, hlast⟩ => ?_
  refine ⟨.separated (hlist.mono fun _ _ hx => hx.spells), hne rfl, ?_, ?_, ?_⟩
  · intro x hmem
    obtain ⟨own, hown, hx⟩ := hlist.exists_of_mem hmem
    exact hx.located.mono hown
  · intro first hfirst
    obtain ⟨rest, rfl⟩ := List.head?_eq_some_iff.1 hfirst
    obtain ⟨own, more, rfl, hx⟩ := hlist.head
    exact hx.starts.append more
  · intro last hmem
    obtain ⟨front, own, rfl, x, hx, hown⟩ := hlast fun _ => rfl
    obtain rfl : x = last := Option.some.inj (hx.symm.trans hmem)
    exact hown.stops.append front

theorem reads_arrayLength : Reads s (arrayType.arrayLength g) fun len taken =>
    Expr.ReadFrom? taken len := by
  refine reads_peekKind ?_
  split
  · exact .pure rfl
  · rename_i hkind
    refine (reads_nextPos hkind (by simp)).bind ?_
    rintro pos s₁ _ ⟨dots, rfl, hdots, rfl⟩
    have hall := Spells.symbol hdots (by simp)
    have hstop := StopsAt.singleton (.symbol hdots (by simp))
    rw [Recorded.stop_ellipsis] at hstop
    exact .pure (Expr.ReadFrom.of_spells hall rfl rfl rfl rfl (.cons dots []) hstop)
  · refine (reads_nested fun s' => reads_expr hg).bind fun len s₁ taken hlen => .pure ?_
    rw [List.append_nil]
    exact hlen

theorem reads_arrayType : Reads s g.arrayType fun e taken => e.ReadFrom taken := by
  refine (reads_expect (by simp)).bind ?_
  rintro lbrack s₁ _ ⟨left, rfl, hleft, rfl⟩
  refine (reads_arrayLength hg).bind fun len s₂ tlen hlen => ?_
  refine (reads_expect (by simp)).bind ?_
  rintro _ s₃ _ ⟨right, rfl, hright, -⟩
  refine (reads_someType hg).bind fun elt s₄ telt helt => .pure ?_
  have hall := (Spells.symbol hleft (by simp)).append (hlen.spells.append
    ((Spells.implied hright (by decide)).append helt.spells))
  exact .of_spells hall (by simp) (by simp) (by simp) rfl (.cons left _)
    (.append _ (.append _ (.append _ helt.stops)))

theorem reads_mapType : Reads s g.mapType fun e taken => e.ReadFrom taken := by
  refine (reads_expect (by simp)).bind ?_
  rintro pos s₁ _ ⟨word, rfl, hword, rfl⟩
  refine (reads_expect (by simp)).bind ?_
  rintro _ s₂ _ ⟨left, rfl, hleft, -⟩
  refine (reads_someType hg).bind fun key s₃ tkey hkey => ?_
  refine (reads_expect (by simp)).bind ?_
  rintro _ s₄ _ ⟨right, rfl, hright, -⟩
  refine (reads_someType hg).bind fun value s₅ tvalue hvalue => .pure ?_
  have hall := (Spells.keyword hword rfl).append ((Spells.implied hleft (by decide)).append
    (hkey.spells.append ((Spells.implied hright (by decide)).append hvalue.spells)))
  exact .of_spells hall (by simp) (by simp) (by simp) rfl (.cons word _)
    (.append _ (.append _ (.append _ (.append _ hvalue.stops))))

theorem reads_chanType : Reads s g.chanType fun e taken => e.ReadFrom taken := by
  refine reads_isAt (fun hkind => ?_) fun _ => ?_
  · -- the arrow of a receive-only channel is recorded, its keyword is not
    refine (reads_nextPos hkind (by simp)).bind ?_
    rintro _ s₁ _ ⟨arrow, rfl, harrow, rfl⟩
    refine (reads_expect (by simp)).bind ?_
    rintro _ s₂ _ ⟨word, rfl, hword, -⟩
    refine (reads_someType hg).bind fun value s₃ tvalue hvalue => .pure ?_
    have hopening := Spells.omitting (e := .chanType arrow.start (some arrow.start) .receive value) rfl
      (.symbol harrow (by simp)) hword (hword ▸ by decide)
    have hread : Expr.ReadFrom (.chanType arrow.start (some arrow.start) .receive value)
        ([arrow, word] ++ tvalue) :=
      ⟨(hopening.append hvalue.spells).congr rfl (by simp) (by simp), .cons arrow _,
        hvalue.stops.append _⟩
    simpa using hread
  · refine (reads_expect (by simp)).bind ?_
    rintro _ s₁ _ ⟨word, rfl, hword, rfl⟩
    refine reads_isAt (fun hkind => ?_) fun _ => ?_
    · refine (reads_nextPos hkind (by simp)).bind ?_
      rintro _ s₂ _ ⟨arrow, rfl, harrow, rfl⟩
      refine (reads_someType hg).bind fun value s₃ tvalue hvalue => .pure ?_
      have hall := (Spells.keyword hword rfl).append
        ((Spells.symbol harrow (by simp)).append hvalue.spells)
      exact .of_spells hall (by simp) (by simp) (by simp) rfl (.cons word _)
        (.append _ (.append _ hvalue.stops))
    · refine (reads_someType hg).bind fun value s₃ tvalue hvalue => .pure ?_
      have hall := (Spells.keyword hword rfl).append hvalue.spells
      exact .of_spells hall (by simp) (by simp) (by simp) rfl (.cons word _)
        (.append _ hvalue.stops)

/-! ### Fields -/

omit hg in
/-- The end of a statement is implied. -/
theorem reads_withEnd {α : Type} {p : Parser α} {recorded : α → List Recorded}
    {exprs : α → List Expr} (h : Reads s p fun a taken => Spells taken (recorded a) (exprs a)) :
    Reads s (withEnd p) fun a taken => Spells taken (recorded a) (exprs a) := by
  refine h.bind fun a s₁ taken ha => ?_
  refine reads_endStatement.bind ?_
  rintro _ s₂ _ (rfl | ⟨semicolon, rfl, hkind⟩)
  · refine .pure ?_
    simpa using ha
  · refine .pure ?_
    simpa using ha.append (.implied hkind (by decide))

omit hg in
theorem reads_fieldBlock {item : Parser Field}
    (h : ∀ s, Reads s item fun f taken => Spells taken f.recorded f.exprs) :
    Reads s (fieldBlock item) fun list taken => list.ReadFrom .leftBrace .rightBrace taken := by
  refine (reads_expect (by simp)).bind ?_
  rintro _ s₁ _ ⟨left, rfl, hleft, rfl⟩
  refine (reads_untilKind fun s _ => reads_withEnd (h s)).bind fun list s₂ taken hlist => ?_
  refine (reads_expect (by simp)).bind ?_
  rintro _ s₃ _ ⟨right, rfl, hright, rfl⟩
  have hall := (Spells.symbol hleft (by simp)).append
    ((Spells.each hlist).append (.symbol hright (by simp)))
  refine .pure ⟨hall.congr (by simp) (by simp [FieldList.recorded]) (by simp [FieldList.exprs]), ?_⟩
  exact ⟨_, rfl, .append _ (.append _ (.close hright (by simp)))⟩

theorem reads_fieldBody : Reads s g.fieldBody fun body taken =>
    Spells taken (body.1.map Ident.recorded ++ body.2.recorded) body.2.exprs := by
  refine reads_peekKind ?_
  split
  · rename_i hkind
    refine (reads_nextPos hkind (by simp)).bind ?_
    rintro _ s₁ _ ⟨star, rfl, hstar, rfl⟩
    refine reads_typeName.bind fun x s₂ taken hx => .pure ?_
    -- an embedded pointer has no names, and its star belongs to the type
    have hall := (Spells.symbol hstar (by simp)).append hx.spells
    exact (hall.cons_plain (e := .star star.start x) rfl).congr (by simp) (by simp) (by simp)
  · refine reads_peekSecond fun kind => ?_
    split
    · refine reads_typeName.bind fun ty s₁ taken hty => .pure ?_
      simpa using hty.spells
    · refine reads_identList.bind fun names s₁ taken hnames => ?_
      refine (reads_someType hg).bind fun ty s₂ tty hty => .pure ?_
      simpa using hnames.append hty.spells
  · exact reads_failExpected _

theorem reads_fieldDecl : Reads s g.fieldDecl fun f taken =>
    Spells taken f.recorded f.exprs := by
  refine (reads_fieldBody hg).bind ?_
  rintro ⟨names, ty⟩ s₁ taken hbody
  refine reads_isAt (fun _ => ?_) fun _ => ?_
  · refine reads_basicLit.bind ?_
    rintro tag s₂ _ ⟨token, rfl, htag⟩
    refine .pure ?_
    have hall := hbody.append (.singleton htag)
    exact hall.congr (by simp) (by simp [Field.recorded]) (by simp [Field.exprs])
  · exact .pure (hbody.congr (by simp) (by simp [Field.recorded]) (by simp [Field.exprs]))

theorem reads_structType : Reads s g.structType fun e taken => e.ReadFrom taken := by
  refine (reads_expect (by simp)).bind ?_
  rintro pos s₁ _ ⟨word, rfl, hword, rfl⟩
  refine (reads_fieldBlock fun s => reads_fieldDecl hg).bind fun fields s₂ taken hfields => .pure ?_
  have hall := (Spells.keyword hword rfl).append hfields.spells
  obtain ⟨stop, hstop, hstops⟩ := hfields.stops
  exact .of_spells hall (by simp) (by simp) (by simp) rfl (.cons word _)
    (.append _ (by simpa [Expr.stop, hstop] using hstops))

/-! ### Parameters -/

theorem reads_variadicType : Reads s g.variadicType fun ty taken => Expr.ReadFrom? taken ty := by
  refine reads_isAt (fun hkind => ?_) fun _ => hg .type s
  refine (reads_nextPos hkind (by simp)).bind ?_
  rintro _ s₁ _ ⟨dots, rfl, hdots, rfl⟩
  refine (reads_someType hg).bind fun elt s₂ taken helt => .pure ?_
  have hall := (Spells.symbol hdots (by simp)).append helt.spells
  exact Expr.ReadFrom.of_spells hall (by simp) (by simp [Expr.recorded?])
    (by simp [Expr.exprs?]) rfl (.cons dots _) (.append _ helt.stops)

theorem reads_someVariadicType : Reads s g.someVariadicType fun e taken => e.ReadFrom taken := by
  refine (reads_variadicType hg).bind fun ty s₁ taken hty => ?_
  cases ty with
  | none => exact reads_failExpected _
  | some ty =>
    refine .pure ?_
    rw [List.append_nil]
    exact hty

omit hg in
/-- Entries are read as names only when they are names. -/
theorem reads_entryNames {before : List Token} (entries : List Expr)
    (h : ∀ e ∈ entries, Located before e.start e.stop) :
    ReadsAfter before s (entryNames entries) fun names taken =>
      taken = [] ∧ entries = names.map Expr.ident := by
  induction entries generalizing s with
  | nil => exact .pure ⟨rfl, rfl⟩
  | cons e entries ih =>
    cases e with
    | ident name =>
      refine (ih fun e he => h e (List.mem_cons_of_mem _ he)).bind ?_
      rintro names s₁ _ ⟨rfl, rfl⟩
      exact .pure ⟨rfl, rfl⟩
    | _ => exact reads_failAt rfl (h _ List.mem_cons_self)

theorem reads_parameterGroup : Reads s g.parameterGroup fun f taken =>
    Spells taken f.recorded f.exprs := by
  refine reads_identList.bind fun names s₁ taken hnames => ?_
  refine (reads_someVariadicType hg).bind fun ty s₂ tty hty => .pure ?_
  have hall := hnames.append hty.spells
  exact hall.congr (by simp) (by simp [Field.recorded]) (by simp [Field.exprs])

omit hg in
/-- Names that were read as types are spelled like names. -/
theorem spells_entries {names : List Ident} {tokens : List Token}
    (h : Spells tokens ((names.map Expr.ident).flatMap Expr.recorded)
      ((names.map Expr.ident).flatMap Expr.exprs)) :
    Spells tokens (names.map Ident.recorded) [] := by
  have hrecorded : (names.map Expr.ident).flatMap Expr.recorded = names.map Ident.recorded := by
    rw [List.flatMap_map, List.map_eq_flatMap]
    rfl
  rw [hrecorded] at h
  refine h.of_not_plain fun e he => ?_
  simp only [List.flatMap_map, Expr.exprs, List.mem_flatMap, List.mem_singleton, List.not_mem_nil,
    iff_false]
  rintro ⟨name, -, rfl⟩
  cases he

theorem reads_parameterFields : Reads s g.parameterFields fun list taken =>
    Spells taken (list.flatMap Field.recorded) (list.flatMap Field.exprs) := by
  refine reads_isAt (fun _ => .pure .nil) fun _ => ?_
  refine ReadsAfter.bind (reads_commaList fun s _ => reads_someVariadicType hg) ?_
  rintro entries s₁ taken ⟨hentries, -, -⟩
  have hspells := Spells.separated (hentries.mono fun _ _ he => he.spells)
  refine (reads_variadicType hg).after.bind fun ty s₂ tty hty => ?_
  cases ty with
  | none =>
    -- no type follows, so the entries are the types
    obtain rfl : tty = [] := hty
    refine .pure (hspells.congr (by simp) ?_ ?_)
    · simp [List.flatMap_map, unnamed, Field.recorded]
    · simp [List.flatMap_map, unnamed, Field.exprs]
  | some ty =>
    have hty : ty.ReadFrom tty := hty
    have hlocated : ∀ e ∈ entries, Located ([] ++ taken ++ tty) e.start e.stop := by
      intro e he
      obtain ⟨own, hown, hread⟩ := hentries.exists_of_mem he
      exact (hread.located.mono hown).append_right tty
    refine (reads_entryNames entries hlocated).bind ?_
    rintro names s₃ _ ⟨rfl, rfl⟩
    have hfirst := (spells_entries hspells).append hty.spells
    refine ReadsAfter.after (reads_eat (by simp) (fun comma s₄ hcomma => ?_) fun _ => ?_)
    · refine (reads_commaList fun s _ => reads_parameterGroup hg).bind ?_
      rintro groups s₅ tgroups ⟨hgroups, -⟩
      have hall := hfirst.append ((Spells.implied hcomma (by decide)).append (.separated hgroups))
      exact .pure (hall.congr (by simp) (by simp [Field.recorded]) (by simp [Field.exprs]))
    · exact .pure (hfirst.congr (by simp) (by simp [Field.recorded]) (by simp [Field.exprs]))

theorem reads_parameters : Reads s g.parameters fun list taken =>
    list.ReadFrom .leftParen .rightParen taken := by
  refine (reads_expect (by simp)).bind ?_
  rintro _ s₁ _ ⟨left, rfl, hleft, rfl⟩
  refine (reads_parameterFields hg).bind fun list s₂ taken hlist => ?_
  refine (reads_expect (by simp)).bind ?_
  rintro _ s₃ _ ⟨right, rfl, hright, rfl⟩
  have hall := (Spells.symbol hleft (by simp)).append
    (hlist.append (.symbol hright (by simp)))
  refine .pure ⟨hall.congr (by simp) (by simp [FieldList.recorded]) (by simp [FieldList.exprs]), ?_⟩
  exact ⟨_, rfl, .append _ (.append _ (.close hright (by simp)))⟩

theorem reads_signature (func : Option Offset) : Reads s (g.signature func) fun ty taken =>
    ty.ReadFrom func taken := by
  refine (reads_parameters hg).bind fun params s₁ taken hparams => ?_
  obtain ⟨stop, hstop, hstops⟩ := hparams.stops
  refine reads_isAt (fun _ => ?_) fun _ => ?_
  · -- results between parentheses
    refine (reads_parameters hg).bind fun results s₂ tresults hresults => .pure ?_
    obtain ⟨stop', hstop', hstops'⟩ := hresults.stops
    rw [List.append_nil]
    refine ⟨(hparams.spells.append hresults.spells).congr rfl
      (by simp [FuncType.recorded, FieldList.recordedResults])
      (by simp [FuncType.exprs, FieldList.exprs?]), rfl, ?_⟩
    simpa [FuncType.stop, hstop'] using hstops'.append taken
  · -- a single result, or none
    refine (hg .type s₁).bind fun result s₂ tresult hresult => .pure ?_
    cases result with
    | none =>
      obtain rfl : tresult = [] := hresult
      rw [List.append_nil, List.append_nil]
      refine ⟨hparams.spells.congr rfl (by simp [FuncType.recorded, FieldList.recordedResults])
        (by simp [FuncType.exprs, FieldList.exprs?]), rfl, ?_⟩
      simpa [FuncType.stop, hstop] using hstops
    | some result =>
      have hresult : result.ReadFrom tresult := hresult
      rw [List.append_nil]
      refine ⟨(hparams.spells.append hresult.spells).congr rfl
        (by simp [FuncType.recorded, FieldList.recordedResults, FieldList.recorded, unnamed,
          Field.recorded])
        (by simp [FuncType.exprs, FieldList.exprs?, FieldList.exprs, unnamed, Field.exprs]), rfl, ?_⟩
      exact hresult.stops.append taken

/-! ### Interfaces and all types -/

theorem reads_methodSpec : Reads s g.methodSpec fun f taken =>
    Spells taken f.recorded f.exprs := by
  refine reads_isAt (fun _ => reads_peekSecond fun kind => ?_) fun _ => reads_failExpected _
  split
  · refine reads_ident.bind ?_
    rintro name s₁ _ ⟨token, rfl, hname⟩
    refine (reads_signature hg none).bind ?_
    rintro ty s₂ taken ⟨hty, hfunc, -⟩
    have hall := (Spells.singleton hname).append hty
    have hfield := hall.cons_plain (e := .funcType ty) rfl
    exact .pure (hfield.congr (by simp) (by simp [Field.recorded, hfunc]) (by simp [Field.exprs]))
  · refine reads_typeName.bind fun ty s₁ taken hty => .pure ?_
    exact hty.spells.congr (by simp) (by simp [unnamed, Field.recorded])
      (by simp [unnamed, Field.exprs])

theorem reads_interfaceType : Reads s g.interfaceType fun e taken => e.ReadFrom taken := by
  refine (reads_expect (by simp)).bind ?_
  rintro pos s₁ _ ⟨word, rfl, hword, rfl⟩
  refine (reads_fieldBlock fun s => reads_methodSpec hg).bind fun methods s₂ taken hmethods => .pure ?_
  have hall := (Spells.keyword hword rfl).append hmethods.spells
  obtain ⟨stop, hstop, hstops⟩ := hmethods.stops
  exact .of_spells hall (by simp) (by simp) (by simp) rfl (.cons word _)
    (.append _ (by simpa [Expr.stop, hstop] using hstops))

/-- A function type after its keyword. -/
theorem reads_funcType {func : Token} (hfunc : func.kind = .keyword .funcKw) :
    Reads s (g.signature (some func.start)) fun ty taken =>
      Expr.ReadFrom (.funcType ty) (func :: taken) := by
  refine (reads_signature hg (some func.start)).mono ?_
  rintro ty taken ⟨hty, hstart, hstop⟩
  have hall := (Spells.keyword hfunc rfl).append hty
  refine .of_spells hall rfl (by simp [hstart]) rfl rfl ⟨func, rfl, ?_⟩ (.append _ hstop)
  obtain ⟨_, params, results⟩ := ty
  obtain rfl : _ = some func.start := hstart
  rfl

/-- **A type, if one starts here,** is spelled by its tokens. -/
theorem reads_typeBody : Reads s g.typeBody fun ty taken => Expr.ReadFrom? taken ty := by
  refine reads_peekKind ?_
  split
  · exact reads_typeName.map fun e taken he => he
  · exact (reads_arrayType hg).map fun e taken he => he
  · exact (reads_structType hg).map fun e taken he => he
  · rename_i hkind
    refine (reads_nextPos hkind (by simp)).bind ?_
    rintro _ s₁ _ ⟨star, rfl, hstar, rfl⟩
    refine (reads_someType hg).bind fun x s₂ taken hx => .pure ?_
    have hall := (Spells.symbol hstar (by simp)).append hx.spells
    exact Expr.ReadFrom.of_spells hall (by simp) (by simp) (by simp) rfl (.cons star _)
      (.append _ hx.stops)
  · rename_i hkind
    refine (reads_nextPos hkind (by simp)).bind ?_
    rintro _ s₁ _ ⟨func, rfl, hfunc, rfl⟩
    refine (reads_funcType hg hfunc).bind fun ty s₂ taken hty => .pure ?_
    rw [List.append_nil]
    exact hty
  · exact (reads_interfaceType hg).map fun e taken he => he
  · exact (reads_mapType hg).map fun e taken he => he
  · exact (reads_chanType hg).map fun e taken he => he
  · exact (reads_chanType hg).map fun e taken he => he
  · rename_i hkind
    refine (reads_nextPos hkind (by simp)).bind ?_
    rintro _ s₁ _ ⟨left, rfl, hleft, rfl⟩
    refine (reads_someType hg).bind fun x s₂ taken hx => ?_
    refine (reads_expect (by simp)).bind ?_
    rintro _ s₃ _ ⟨right, rfl, hright, rfl⟩
    have hall := (Spells.symbol hleft (by simp)).append
      (hx.spells.append (.symbol hright (by simp)))
    exact .pure (Expr.ReadFrom.of_spells hall (by simp) (by simp) (by simp) rfl (.cons left _)
      (.append _ (.append _ (.close hright (by simp)))))
  · exact .pure rfl

end Grammar

end GoTree
