import GoTree.Grammar.Expression
import GoTree.Proofs.Grammar.Type

/-!
# Expressions are spelled by their tokens

The rules of the grammar of expressions.  In a call, three points after an argument that is not the
last are taken without being recorded; everywhere else every token is recorded or implied.

## Main results

* `Grammar.accounted_arguments`: the arguments of a call, with the points after them
* `Grammar.reads_unaryBody`, `Grammar.reads_exprBody`, `Grammar.reads_literalBody`: the recursive
  rules of expressions
-/

namespace GoTree

open GoTree.Parser

namespace Grammar

variable {g : Grammar} {s : ParserState} (hg : g.Spelled)

include hg

/-! ### Blocks and functions -/

theorem reads_stmtList : Reads s g.stmtList fun list taken =>
    Spells taken (list.flatMap Stmt.recorded) (list.flatMap Stmt.exprs) := by
  have hitem : ∀ s, Reads s (g .stmt) fun stmt taken =>
      Spells taken (Stmt.recorded stmt) (Stmt.exprs stmt) := fun s => hg .stmt s
  exact (reads_untilKind fun s _ => hitem s).mono fun list taken h => .each h

theorem reads_closedBlock : Reads s g.block fun b taken =>
    Spells taken b.recorded b.exprs ∧ StopsAt taken b.stop := by
  refine (reads_expect (by simp)).bind ?_
  rintro _ s₁ _ ⟨left, rfl, hleft, rfl⟩
  refine (reads_stmtList hg).bind fun list s₂ taken hlist => ?_
  refine (reads_expect (by simp)).bind ?_
  rintro _ s₃ _ ⟨right, rfl, hright, rfl⟩
  have hall := (Spells.symbol hleft (by simp)).append (hlist.append (.symbol hright (by simp)))
  refine .pure ⟨hall.congr (by simp) (by simp [Block.recorded]) (by simp [Block.exprs]), ?_⟩
  exact .append _ (.append _ (.close hright (by simp)))

theorem reads_block : Reads s g.block fun b taken => Spells taken b.recorded b.exprs :=
  (reads_closedBlock hg).mono fun _ _ h => h.1

theorem reads_funcTypeOrLit : Reads s g.funcTypeOrLit fun e taken => e.ReadFrom taken := by
  refine (reads_expect (by simp)).bind ?_
  rintro _ s₁ _ ⟨func, rfl, hfunc, rfl⟩
  refine (reads_signature hg (some func.start)).bind ?_
  rintro ty s₂ taken ⟨hty, hstart, hstop⟩
  have hfuncTy := (Spells.keyword hfunc rfl).append hty
  refine reads_isAt (fun _ => ?_) fun _ => ?_
  · refine (reads_nested fun s' => reads_closedBlock hg).bind fun body s₃ tbody hbody => .pure ?_
    exact .of_spells (hfuncTy.append hbody.1) (by simp) (by simp [hstart])
      (by simp) rfl ⟨func, rfl, by simp [Expr.start, hstart]⟩ (.append _ hbody.2)
  · refine .pure (.of_spells hfuncTy (by simp) (by simp [hstart])
      (by simp) rfl ⟨func, rfl, ?_⟩ (.append _ hstop))
    obtain ⟨_, params, results⟩ := ty
    obtain rfl : _ = some func.start := hstart
    rfl

/-! ### What follows an operand -/

theorem reads_typeAssert {x : Expr} {before : List Token} {dot : Token} (hx : x.ReadFrom before)
    (hdot : dot.kind = .symbol .dot) :
    Reads s (g.typeAssert x) fun e taken => e.ReadFrom (before ++ dot :: taken) := by
  have hfront := hx.spells.append (Spells.implied hdot (by decide))
  have hstart := hx.starts.append [dot]
  refine (reads_expect (by simp)).bind ?_
  rintro _ s₁ _ ⟨left, rfl, hleft, rfl⟩
  refine reads_eat (by simp) (fun word s₂ hword => ?_) fun _ => ?_
  · refine (reads_expect (by simp)).bind ?_
    rintro _ s₃ _ ⟨right, rfl, hright, rfl⟩
    -- the keyword between the parentheses is not recorded
    have hopening := Spells.omitting (e := .typeAssert x left.start none right.start) rfl
      (.symbol hleft (by simp)) hword (hword ▸ by decide)
    have hall := hfront.append (hopening.append (.symbol hright (by simp)))
    have hread : Expr.ReadFrom (.typeAssert x left.start none right.start)
        (before ++ [dot] ++ ([left, word] ++ [right])) := by
      refine ⟨?_, hstart.append _, .append _ (.append _ (.close hright (by simp)))⟩
      refine Spells.of_not_plain (hall.congr rfl ?_ rfl) fun e _ => ?_
      · simp [Expr.recorded?]
      · simp [Expr.exprs?, or_comm]
    exact .pure (by simpa using hread)
  · refine (reads_someType hg).bind fun ty s₂ taken hty => ?_
    refine (reads_expect (by simp)).bind ?_
    rintro _ s₃ _ ⟨right, rfl, hright, rfl⟩
    have hall := hfront.append ((Spells.symbol hleft (by simp)).append
      (hty.spells.append (.symbol hright (by simp))))
    exact .pure (.of_spells hall (by simp) (by simp [Expr.recorded?])
      (by simp [Expr.exprs?]) rfl (hstart.append _)
      (.append _ (.append _ (.append _ (.close hright (by simp))))))

theorem reads_selectorOrAssert {x : Expr} {before : List Token} {dot : Token}
    (hx : x.ReadFrom before) (hdot : dot.kind = .symbol .dot) :
    Reads s (g.selectorOrAssert x) fun e taken => e.ReadFrom (before ++ dot :: taken) := by
  refine reads_peekKind ?_
  split
  · refine reads_ident.bind ?_
    rintro sel s₁ _ ⟨token, rfl, hsel⟩
    have hall := hx.spells.append ((Spells.implied hdot (by decide)).append (.singleton hsel))
    exact .pure (.of_spells hall (by simp) (by simp) (by simp) rfl (hx.starts.append _)
      (.append _ (.append _ (.singleton hsel))))
  · exact reads_typeAssert hg hx hdot
  · exact reads_failExpected _

/-- The tokens between brackets. -/
def Brackets.recorded : Brackets → List Recorded
  | .index i => i.recorded
  | .slice low high max _ => Expr.recorded? low ++ Expr.recorded? high ++ Expr.recorded? max

/-- The expressions between brackets. -/
def Brackets.exprs : Brackets → List Expr
  | .index i => i.exprs
  | .slice low high max _ => Expr.exprs? low ++ Expr.exprs? high ++ Expr.exprs? max

theorem reads_sliceBound : Reads s g.sliceBound fun bound taken =>
    Spells taken (Expr.recorded? bound) (Expr.exprs? bound) := by
  refine reads_peekKind ?_
  split
  · exact .pure .nil
  · exact .pure .nil
  · exact (reads_expr hg).map fun e taken he => he.spells

theorem reads_sliceBounds {low : Option Expr} {before : List Token}
    (hlow : Spells before (Expr.recorded? low) (Expr.exprs? low)) :
    Reads s (g.sliceBounds low) fun inner taken =>
      Spells (before ++ taken) inner.recorded inner.exprs := by
  refine (reads_sliceBound hg).bind fun high s₁ taken hhigh => ?_
  refine reads_eat (by simp) (fun colon s₂ hcolon => ?_) fun _ => ?_
  · refine (reads_sliceBound hg).bind fun max s₃ tmax hmax => ?_
    split
    · exact reads_fail _
    · have hall := hlow.append (hhigh.append ((Spells.implied hcolon (by decide)).append hmax))
      exact .pure (hall.congr (by simp) (by simp [Brackets.recorded]) (by simp [Brackets.exprs]))
  · exact .pure ((hlow.append hhigh).congr (by simp)
      (by simp [Brackets.recorded, Expr.recorded?]) (by simp [Brackets.exprs, Expr.exprs?]))

theorem reads_brackets : Reads s g.brackets fun inner taken =>
    Spells taken inner.recorded inner.exprs := by
  refine reads_eat (by simp) (fun colon s₁ hcolon => ?_) fun _ => ?_
  · have hlow : Spells [colon] (Expr.recorded? none) (Expr.exprs? none) :=
      .implied hcolon (by decide)
    exact reads_sliceBounds hg hlow
  · refine (reads_expr hg).bind fun low s₁ taken hlow => ?_
    refine reads_eat (by simp) (fun colon s₂ hcolon => ?_) fun _ => ?_
    · have hfront : Spells (taken ++ [colon]) (Expr.recorded? (some low)) (Expr.exprs? (some low)) :=
        (hlow.spells.append (.implied hcolon (by decide))).congr rfl
          (by simp [Expr.recorded?]) (by simp [Expr.exprs?])
      refine (reads_sliceBounds hg hfront).mono fun inner more hinner => ?_
      simpa using hinner
    · refine .pure ?_
      simpa [Brackets.recorded, Brackets.exprs] using hlow.spells

theorem reads_indexOrSlice {x : Expr} {before : List Token} (hx : x.ReadFrom before) :
    Reads s (g.indexOrSlice x) fun e taken => e.ReadFrom (before ++ taken) := by
  refine (reads_expect (by simp)).bind ?_
  rintro _ s₁ _ ⟨left, rfl, hleft, rfl⟩
  refine (reads_nested fun s' => reads_brackets hg).bind fun inner s₂ taken hinner => ?_
  refine (reads_expect (by simp)).bind ?_
  rintro _ s₃ _ ⟨right, rfl, hright, rfl⟩
  have hall := hx.spells.append ((Spells.symbol hleft (by simp)).append
    (hinner.append (.symbol hright (by simp))))
  have hstop : StopsAt (before ++ ([left] ++ (taken ++ [right]))) (right.start + 1) :=
    .append _ (.append _ (.append _ (.close hright (by simp))))
  cases inner with
  | index i =>
    exact .pure (.of_spells hall (by simp) (by simp [Brackets.recorded])
      (by simp [Brackets.exprs]) rfl (hx.starts.append _) hstop)
  | slice low high max slice3 =>
    exact .pure (.of_spells hall (by simp) (by simp [Brackets.recorded])
      (by simp [Brackets.exprs]) rfl (hx.starts.append _) hstop)

/-! ### Calls -/

/-- An argument read from some tokens, the last of which are the three points after it. -/
def ArgumentFrom (arg : Expr × Option Offset) (taken : List Token) : Prop :=
  ∃ own points, arg.1.ReadFrom own ∧ taken = own ++ points ∧
    (arg.2 = none ∧ points = [] ∨
      ∃ token, token.kind = .symbol .ellipsis ∧ arg.2 = some token.start ∧ points = [token])

omit hg in
theorem ArgumentFrom.argumentAt {arg : Expr × Option Offset} {taken : List Token}
    (h : ArgumentFrom arg taken) : ArgumentAt arg taken := by
  obtain ⟨own, points, hx, rfl, hpoints⟩ := h
  exact ⟨own, points, rfl, hx.starts, hx.stops, hpoints⟩

theorem reads_argument : Reads s g.argument ArgumentFrom := by
  refine (reads_expr hg).bind fun x s₁ own hx => ?_
  refine reads_isAt (fun hkind => ?_) fun _ => ?_
  · refine (reads_nextPos hkind (by simp)).bind ?_
    rintro _ s₂ _ ⟨token, rfl, htoken, rfl⟩
    exact .pure ⟨own, [token], hx, by simp, .inr ⟨token, htoken, rfl, rfl⟩⟩
  · exact .pure ⟨own, [], hx, by simp, .inl ⟨rfl, rfl⟩⟩

omit hg in
/-- The first of several arguments starts with one of their tokens. -/
theorem starts_of_separated {arg : Expr × Option Offset} {list : List (Expr × Option Offset)}
    {tokens : List Token} (h : Separated ArgumentFrom (arg :: list) tokens) :
    ∃ token ∈ tokens, token.start = arg.1.start := by
  obtain ⟨_, rest, rfl, own, points, hx, rfl, -⟩ := h.head
  obtain ⟨token, htoken, hstart⟩ := hx.starts
  exact ⟨token, by simp [List.mem_of_mem_head? htoken], hstart⟩

/-- What the arguments of a call record: of several arguments followed by three points, only the
last points. -/
def argumentsRecorded (args : List (Expr × Option Offset)) : List Recorded :=
  (args.map Prod.fst).flatMap Expr.recorded ++
    Recorded.symbol? (args.filterMap Prod.snd).getLast? .ellipsis

omit hg in
theorem mem_argumentsRecorded_cons {arg : Expr × Option Offset}
    {list : List (Expr × Option Offset)} {r : Recorded}
    (h : r ∈ argumentsRecorded (arg :: list)) :
    r ∈ arg.1.recorded ∨ r ∈ Recorded.symbol? arg.2 .ellipsis ∨ r ∈ argumentsRecorded list := by
  obtain ⟨x, dots⟩ := arg
  cases dots with
  | none =>
    simp only [argumentsRecorded, List.map_cons, List.flatMap_cons, List.filterMap_cons,
      List.mem_append] at h ⊢
    tauto
  | some pos =>
    simp only [argumentsRecorded, List.map_cons, List.flatMap_cons, List.filterMap_cons,
      List.mem_append, List.getLast?_cons] at h ⊢
    cases hlast : (list.filterMap Prod.snd).getLast? with
    | none =>
      rw [hlast] at h
      simp only [Option.getD_none] at h
      tauto
    | some last =>
      rw [hlast] at h
      simp only [Option.getD_some] at h
      tauto

omit hg in
theorem mem_of_mem_argumentsRecorded {args : List (Expr × Option Offset)} {r : Recorded}
    (h : r ∈ argumentsRecorded args) :
    ∃ arg ∈ args, r ∈ arg.1.recorded ++ Recorded.symbol? arg.2 .ellipsis := by
  induction args with
  | nil => simp [argumentsRecorded] at h
  | cons arg list ih =>
    rcases mem_argumentsRecorded_cons h with hr | hr | hr
    · exact ⟨arg, by simp, List.mem_append_left _ hr⟩
    · exact ⟨arg, by simp, List.mem_append_right _ hr⟩
    · obtain ⟨other, hother, hr⟩ := ih hr
      exact ⟨other, by simp [hother], hr⟩

omit hg in
/-- The points after an argument are recorded for it. -/
theorem spells_points {dots : Option Offset} {points : List Token}
    (h : dots = none ∧ points = [] ∨
      ∃ token, token.kind = .symbol .ellipsis ∧ dots = some token.start ∧ points = [token]) :
    Spells points (Recorded.symbol? dots .ellipsis) [] := by
  rcases h with ⟨rfl, rfl⟩ | ⟨token, htoken, rfl, rfl⟩
  · exact .nil
  · exact .symbol htoken (by simp)

omit hg in
/-- The arguments of a call, each with its points, are spelled by their tokens. -/
theorem spells_arguments {args : List (Expr × Option Offset)} {tokens : List Token}
    (h : Separated ArgumentFrom args tokens) :
    Spells tokens (args.flatMap fun arg => arg.1.recorded ++ Recorded.symbol? arg.2 .ellipsis)
      (args.flatMap fun arg => arg.1.exprs) := by
  refine .separated (h.mono ?_)
  rintro arg _ ⟨own, points, hx, rfl, hpoints⟩
  simpa using hx.spells.append (spells_points hpoints)

omit hg in
/-- **The arguments of a call** record their keywords, whichever points are lost. -/
theorem worded_arguments {args : List (Expr × Option Offset)} {tokens : List Token}
    (h : Separated ArgumentFrom args tokens) :
    Worded tokens (argumentsRecorded args) (args.flatMap fun arg => arg.1.exprs) := by
  refine (spells_arguments h).worded.of_recorded ?_ ?_
  · intro r hr hkeyword
    obtain ⟨arg, harg, hr⟩ := List.mem_flatMap.1 hr
    rcases List.mem_append.1 hr with hr | hr
    · refine List.mem_append_left _ (List.mem_flatMap.2 ⟨arg.1, ?_, hr⟩)
      exact List.mem_map_of_mem harg
    · -- the points are no keyword
      cases hdots : arg.2 with
      | none => simp [hdots] at hr
      | some pos =>
        obtain rfl : r = .symbol pos .ellipsis := by simpa [hdots] using hr
        cases hkeyword
  · intro r hr
    exact List.mem_flatMap.2 (mem_of_mem_argumentsRecorded hr)

omit hg in
/-- **The arguments of a call** are accounted for by their tokens; points that are not recorded stand
between two of them.  `front` are the arguments of the call before these. -/
theorem accounted_arguments {callee : Expr} {lparen rparen : Offset} {dots : Option Offset}
    {args : List (Expr × Option Offset)} {tokens : List Token} {exprs : List Expr}
    (h : Separated ArgumentFrom args tokens) (front : List Expr)
    (hcall : .call callee lparen (front ++ args.map Prod.fst) dots rparen ∈ exprs)
    (hexprs : ∀ e ∈ (args.map Prod.fst).flatMap Expr.exprs, e ∈ exprs) :
    Accounted tokens (argumentsRecorded args) exprs := by
  induction h generalizing front with
  | nil => exact Accounted.nil.mono (by simp)
  | @last arg taken head =>
    obtain ⟨own, points, hx, rfl, hpoints⟩ := head
    have hall := hx.spells.toAccounted.append (spells_points hpoints).toAccounted
    refine (hall.congr rfl ?_ rfl).mono (by simpa using hexprs)
    cases hdots : arg.2 with
    | none => simp [argumentsRecorded, hdots]
    | some pos => simp [argumentsRecorded, hdots]
  | @cons arg list comma taken more head kind tail ih =>
    have hrest : Accounted more (argumentsRecorded list) exprs := by
      refine ih (front ++ [arg.1]) (by simpa using hcall) ?_
      intro e he
      exact hexprs e (by simpa using .inr (by simpa using he))
    have hown : ∀ e ∈ arg.1.exprs, e ∈ exprs := fun e he => hexprs e (by simp [he])
    obtain ⟨own, points, hx, rfl, hpoints⟩ := head
    have hcomma : Accounted [comma] [] [] := (Spells.implied kind (by decide)).toAccounted
    have hall := hx.spells.toAccounted.append
      ((spells_points hpoints).toAccounted.append (hcomma.append hrest))
    rcases hpoints with ⟨hsome, rfl⟩ | ⟨token, htoken, hsome, rfl⟩
    · refine (hall.congr (by simp) ?_ rfl).mono ?_
      · simp [argumentsRecorded, hsome]
      · simpa [or_imp, forall_and] using hown
    · cases list with
      | nil =>
        refine (hall.congr (by simp) ?_ rfl).mono ?_
        · simp [argumentsRecorded, hsome]
        · simpa [or_imp, forall_and] using hown
      | cons next list =>
        -- these points are lost, or recorded after the arguments that follow
        refine ⟨?_, by simpa using hall.known, .inr ?_⟩
        · intro r hr
          obtain ⟨x, hx', hdenotes⟩ :=
            hall.mem r (by simpa [List.mem_append] using mem_argumentsRecorded_cons hr)
          exact ⟨x, by simpa using hx', hdenotes⟩
        · obtain ⟨x, hx', hstart⟩ := starts_of_separated tail
          exact ⟨callee, lparen, _, dots, rparen, hcall, front, arg.1, next.1, list.map Prod.fst,
            by simp, own, token, comma :: more, by simp, htoken, hx.spells.mem, x, by simp [hx'],
            hstart⟩

omit hg in
/-- **A call** is spelled by the tokens of its callee and its arguments. -/
theorem spells_call {callee : Expr} {before taken : List Token} {left right : Token}
    {args : List (Expr × Option Offset)} (hcallee : callee.ReadFrom before)
    (hleft : left.kind = .symbol .leftParen) (hargs : Separated ArgumentFrom args taken)
    (hright : right.kind = .symbol .rightParen) {e : Expr}
    (he : e = .call callee left.start (args.map Prod.fst) (args.filterMap Prod.snd).getLast?
      right.start) :
    Spells (before ++ ([left] ++ (taken ++ [right]))) e.recorded e.exprs := by
  have hrecorded : callee.recorded ++ ([.symbol left.start .leftParen] ++
      (argumentsRecorded args ++ [.symbol right.start .rightParen])) = e.recorded := by
    simp [he, argumentsRecorded]
  have hexprs : e.exprs = e :: (callee.exprs ++ args.flatMap fun arg => arg.1.exprs) := by
    simp [he, List.flatMap_map]
  have hself : .call callee left.start ([] ++ args.map Prod.fst)
      (args.filterMap Prod.snd).getLast? right.start ∈ e.exprs := by
    simp [he]
  have hinner := accounted_arguments hargs [] hself (by simp +contextual [hexprs])
  have hopen := Spells.symbol hleft (by simp)
  have hclose := Spells.symbol hright (by simp)
  have hlist := hinner.append hclose.toAccounted
  have hrest := hopen.toAccounted.append hlist
  refine ⟨((hcallee.spells.toAccounted.append hrest).congr rfl hrecorded rfl).mono ?_, ?_, ?_⟩
  · intro x hx
    simp only [hexprs, List.mem_append, List.mem_cons, List.not_mem_nil, false_or, or_false] at hx ⊢
    tauto
  · -- the tokens of calls are found with the points after every argument
    have hfull := hcallee.spells.append (hopen.append ((spells_arguments hargs).append hclose))
    rw [hexprs, List.forall_mem_cons]
    refine ⟨?_, fun x hx => hfull.calls x (by simpa using hx)⟩
    rw [he]
    exact ⟨before ++ [left], args, taken, right, [], by simp, rfl, hright,
      hargs.mono fun _ _ h => h.argumentAt, rfl, rfl⟩
  · have hwords := hopen.worded.append
      ((worded_arguments hargs).append hclose.worded hinner.mem hclose.mem) hopen.mem hlist.mem
    have hall := hcallee.spells.worded.append hwords hcallee.spells.mem hrest.mem
    refine (hall.congr rfl hrecorded rfl).of_omitted fun x hx => ?_
    have hne : x ≠ e := by
      rintro rfl
      simp [he, Expr.omitted?] at hx
    simp [hexprs, hne]

theorem reads_call {callee : Expr} {before : List Token} (hcallee : callee.ReadFrom before) :
    Reads s (g.call callee) fun e taken => e.ReadFrom (before ++ taken) := by
  refine (reads_expect (by simp)).bind ?_
  rintro _ s₁ _ ⟨left, rfl, hleft, rfl⟩
  have hargument (s' : ParserState) : Reads s' (commaList closesArguments g.argument)
      fun args taken => Separated ArgumentFrom args taken :=
    (reads_commaList fun s _ => reads_argument hg).mono fun args taken h => h.1
  refine (reads_nested hargument).bind fun args s₂ taken hargs => ?_
  refine (reads_expect (by simp)).bind ?_
  rintro _ s₃ _ ⟨right, rfl, hright, rfl⟩
  exact .pure ⟨spells_call hcallee hleft hargs hright rfl, hcallee.starts.append _,
    .append _ (.append _ (.append _ (.close hright (by simp))))⟩

/-! ### Composite literals -/

theorem reads_elementValue : Reads s g.elementValue fun e taken => e.ReadFrom taken := by
  refine reads_isAt (fun _ => ?_) fun _ => reads_expr hg
  refine (hg (.literal none) s).mono fun e taken he => ?_
  exact he [] rfl

theorem reads_element : Reads s g.element fun e taken => e.ReadFrom taken := by
  refine (reads_elementValue hg).bind fun key s₁ tkey hkey => ?_
  refine reads_isAt (fun hkind => ?_) fun _ => ?_
  · refine (reads_nextPos hkind (by simp)).bind ?_
    rintro _ s₂ _ ⟨colon, rfl, hcolon, rfl⟩
    refine (reads_elementValue hg).bind fun value s₃ tvalue hvalue => .pure ?_
    have hall := hkey.spells.append ((Spells.symbol hcolon (by simp)).append hvalue.spells)
    exact .of_spells hall (by simp) (by simp) (by simp) rfl (hkey.starts.append _)
      (.append _ (.append _ hvalue.stops))
  · refine .pure ?_
    rw [List.append_nil]
    exact hkey

/-- **The braces of a composite literal**, after the tokens of its type. -/
theorem reads_literalBody (ty : Option Expr) :
    Reads s (g.literalBody ty) (Rule.Spelled (.literal ty)) := by
  refine (reads_expect (by simp)).bind ?_
  rintro _ s₁ _ ⟨left, rfl, hleft, rfl⟩
  have helement (s' : ParserState) : Reads s' (commaList closesBraces g.element)
      fun list taken => Spells taken (list.flatMap Expr.recorded) (list.flatMap Expr.exprs) := by
    have hitem : ∀ s, Reads s g.element fun e taken => Spells taken e.recorded e.exprs :=
      fun s => (reads_element hg).mono fun e taken he => he.spells
    exact (reads_commaList fun s _ => hitem s).mono fun list taken h => .separated h.1
  refine (reads_nested helement).bind fun elts s₂ taken helts => ?_
  refine (reads_expect (by simp)).bind ?_
  rintro _ s₃ _ ⟨right, rfl, hright, rfl⟩
  refine .pure fun before hty => ?_
  have hall := hty.spells.append ((Spells.symbol hleft (by simp)).append
    (helts.append (.symbol hright (by simp))))
  refine .of_spells hall (by simp) (by simp) (by simp) rfl ?_
    (.append _ (.append _ (.append _ (.close hright (by simp)))))
  cases ty with
  | none =>
    obtain rfl : before = [] := hty
    exact .cons left _
  | some ty => exact (Expr.ReadFrom.starts hty).append _

/-! ### Operands and operators -/

theorem reads_operand : Reads s g.operand fun e taken => e.ReadFrom taken := by
  refine reads_peekKind ?_
  split
  · refine reads_ident.bind ?_
    rintro name s₁ _ ⟨token, rfl, hname⟩
    exact .pure (.of_spells (.singleton hname) rfl rfl rfl rfl ⟨token, rfl, hname.pos.symm⟩
      (.singleton hname))
  · refine reads_basicLit.bind ?_
    rintro lit s₁ _ ⟨token, rfl, hlit⟩
    exact .pure (.of_spells (.singleton hlit) rfl rfl rfl rfl ⟨token, rfl, hlit.pos.symm⟩
      (.singleton hlit))
  · -- an expression between parentheses
    rename_i hkind
    refine (reads_nextPos hkind (by simp)).bind ?_
    rintro _ s₁ _ ⟨left, rfl, hleft, rfl⟩
    refine (reads_nested fun s' => reads_expr hg).bind fun x s₂ taken hx => ?_
    refine (reads_expect (by simp)).bind ?_
    rintro _ s₃ _ ⟨right, rfl, hright, rfl⟩
    have hall := (Spells.symbol hleft (by simp)).append
      (hx.spells.append (.symbol hright (by simp)))
    exact .pure (.of_spells hall (by simp) (by simp) (by simp) rfl (.cons left _)
      (.append _ (.append _ (.close hright (by simp)))))
  · exact reads_funcTypeOrLit hg
  · exact reads_someType hg
  · exact reads_someType hg
  · exact reads_someType hg
  · exact reads_someType hg
  · exact reads_someType hg
  · exact reads_someType hg
  · exact reads_failExpected _

/-- What follows an operand is added to its tokens. -/
theorem reads_suffix {x : Expr} {before : List Token} (hx : x.ReadFrom before) :
    Reads s (g.suffix x) (Extends Expr.ReadFrom before) := by
  refine reads_peekKind ?_
  split
  · rename_i hkind
    refine (reads_next hkind (by simp)).bind ?_
    rintro dot s₁ _ ⟨-, rfl, hdot⟩
    exact (reads_selectorOrAssert hg hx hdot).map fun e taken he => he
  · exact (reads_indexOrSlice hg hx).map fun e taken he => he
  · exact (reads_call hg hx).map fun e taken he => he
  · refine reads_level fun level => ?_
    split
    · exact (hg (.literal (some x)) s).map fun e taken he => he before hx
    · exact .pure rfl
  · exact .pure rfl

theorem reads_primary : Reads s g.primary fun e taken => e.ReadFrom taken := by
  refine (reads_operand hg).bind ?_
  intro x s₁ taken hx
  exact reads_extend Expr.ReadFrom (fun _ _ _ ha => reads_suffix hg ha) hx

omit hg in
/-- A token before an operand is the symbol of its operator. -/
theorem kind_of_unaryOp? {kind second : Token.Kind} {op : UnaryOp}
    (h : unaryOp? kind second = some op) : kind = .symbol op.symbol ∧ op.symbol ≠ .semicolon := by
  have hne : op.symbol ≠ .semicolon := by cases op <;> simp [UnaryOp.symbol]
  refine ⟨?_, hne⟩
  unfold unaryOp? at h
  split at h
  · split at h
    · simp at h
    · obtain rfl : UnaryOp.receive = op := by simpa using h
      rfl
  · rw [UnaryOp.ofSymbol?_eq_some_iff] at h
    rw [h]
  · simp at h

/-- **An operand with the operators before it.** -/
theorem reads_unaryBody : Reads s g.unaryBody fun e taken => e.ReadFrom taken := by
  refine reads_peekKind (reads_peekSecond fun second => ?_)
  split
  · rename_i op hop
    obtain ⟨hkind, hne⟩ := kind_of_unaryOp? hop
    refine (reads_nextPos hkind (by simp)).bind ?_
    rintro _ s₁ _ ⟨token, rfl, htoken, rfl⟩
    refine (hg .unary s₁).bind fun x s₂ taken hx => .pure ?_
    have hx : Expr.ReadFrom x taken := hx
    have hall := (Spells.symbol htoken hne).append hx.spells
    exact .of_spells hall (by simp) (by simp) (by simp) rfl (.cons token _)
      (.append _ hx.stops)
  · refine reads_isAt (fun hkind => ?_) fun _ => reads_primary hg
    refine (reads_nextPos hkind (by simp)).bind ?_
    rintro _ s₁ _ ⟨star, rfl, hstar, rfl⟩
    refine (hg .unary s₁).bind fun x s₂ taken hx => .pure ?_
    have hx : Expr.ReadFrom x taken := hx
    have hall := (Spells.symbol hstar (by simp)).append hx.spells
    exact .of_spells hall (by simp) (by simp) (by simp) rfl (.cons star _)
      (.append _ hx.stops)

omit hg in
theorem kind_of_binaryOp? {kind : Token.Kind} {op : BinaryOp} (h : binaryOp? kind = some op) :
    kind = .symbol op.symbol ∧ op.symbol ≠ .semicolon := by
  have hne : op.symbol ≠ .semicolon := by cases op <;> simp [BinaryOp.symbol]
  refine ⟨?_, hne⟩
  unfold binaryOp? at h
  split at h
  · rw [BinaryOp.ofSymbol?_eq_some_iff] at h
    rw [h]
  · simp at h

/-- An operator and its right operand are added to the tokens of the left one. -/
theorem reads_operation (least : Nat) {x : Expr} {before : List Token} (hx : x.ReadFrom before) :
    Reads s (g.operation least x) (Extends Expr.ReadFrom before) := by
  refine reads_peekKind ?_
  split
  · rename_i op hop
    obtain ⟨hkind, hne⟩ := kind_of_binaryOp? hop
    split
    · exact .pure rfl
    · refine (reads_nextPos hkind (by simp)).bind ?_
      rintro _ s₁ _ ⟨token, rfl, htoken, rfl⟩
      refine (hg (.expr (op.precedence + 1)) s₁).bind fun y s₂ taken hy => .pure ?_
      have hy : Expr.ReadFrom y taken := hy
      have hall := hx.spells.append ((Spells.symbol htoken hne).append hy.spells)
      exact Expr.ReadFrom.of_spells hall (by simp) (by simp) (by simp) rfl
        (hx.starts.append _) (.append _ (.append _ hy.stops))
  · exact .pure rfl

/-- **An expression** whose operators bind tightly enough. -/
theorem reads_exprBody (least : Nat) :
    Reads s (g.exprBody least) fun e taken => e.ReadFrom taken := by
  refine (hg .unary s).bind ?_
  intro x s₁ taken hx
  exact reads_extend Expr.ReadFrom (fun _ _ _ ha => reads_operation hg least ha) hx

end Grammar

end GoTree
