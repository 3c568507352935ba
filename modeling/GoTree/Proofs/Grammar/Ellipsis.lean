import GoTree.Proofs.Grammar.Account
import GoTree.Proofs.Mapping.Document

/-!
# The three points of a call

A call may have three points after its last argument, and records where they start.  The grammar
takes three points after any argument, though, and records the last ones it took.  So a call records
three points whenever some follow an argument; but they stand after the last argument, and are the
only ones, just when none stand between two arguments.

## Main definitions

* `dotsWithin`: where three points start between two offsets
* `dotsAfterArgs`: where they start after each argument of a call
* `RecordsDots`: which of them a call records

## Main results

* `dotsAfterArgs_of_separated`: what the tokens of the arguments say about them
* `RecordsDots.only`: calls without three points between two arguments
* `parse_ellipsis`: which three points the calls of a text record
* `parse_ellipsis_between`: a call with three points before its last argument
-/

namespace GoTree

open GoTree.Parser

variable {t : Text} {tokens front own middle back taken : List Token} {next right : Token}
  {start stop rparen : Offset} {args : List Expr} {list : List (Expr × Option Offset)}

/-- **Where three points start** from one offset on and before another. -/
def dotsWithin (tokens : List Token) (start stop : Offset) : List Offset :=
  (tokens.filter fun token => token.kind == .symbol .ellipsis &&
    decide (start ≤ token.start) && decide (token.start < stop)).map Token.start

/-- **Where three points start after each argument** of a call: before the next argument, or before
the closing parenthesis. -/
def dotsAfterArgs (tokens : List Token) (rparen : Offset) : List Expr → List (List Offset)
  | [] => []
  | a :: rest =>
    dotsWithin tokens a.stop ((rest.head?.map Expr.start).getD rparen) ::
      dotsAfterArgs tokens rparen rest

/-! ### Between two offsets -/

theorem mem_dotsWithin {p : Offset} (h : p ∈ dotsWithin tokens start stop) :
    start ≤ p ∧ p < stop := by
  obtain ⟨token, htoken, rfl⟩ := List.mem_map.1 h
  have hwithin := (List.mem_filter.1 htoken).2
  simp only [Bool.and_eq_true, decide_eq_true_eq] at hwithin
  exact ⟨hwithin.1.2, hwithin.2⟩

/-- Of a list in three parts only the middle one passes a test. -/
theorem filter_between {α : Type} {p q : α → Bool} {before middle after : List α}
    (hbefore : ∀ a ∈ before, p a = false) (hmiddle : ∀ a ∈ middle, p a = q a)
    (hafter : ∀ a ∈ after, p a = false) :
    (before ++ (middle ++ after)).filter p = middle.filter q := by
  have hbefore' : before.filter p = [] := List.filter_eq_nil_iff.2 (by simpa using hbefore)
  have hafter' : after.filter p = [] := List.filter_eq_nil_iff.2 (by simpa using hafter)
  rw [List.filter_append, List.filter_append, hbefore', hafter', List.filter_congr hmiddle,
    List.nil_append, List.append_nil]

/-- **Between a construct and a later token** there are the three points among the tokens between
them. -/
theorem dotsWithin_eq
    (htokens : (TokenStream.ofText t).tokens = front ++ own ++ (middle ++ next :: back))
    (hstop : StopsAt own start) : dotsWithin (TokenStream.ofText t).tokens start next.start =
      (middle.filter fun token => token.kind == .symbol .ellipsis).map Token.start := by
  obtain ⟨last, hlast, r, hr, rfl⟩ := hstop
  obtain ⟨init, rfl⟩ := List.getLast?_eq_some_iff.1 hlast
  rw [← List.append_assoc front] at htokens
  have hbody : last ∈ Token.body t := (hr.mem_body (by simp [htokens])).1
  have horder := TokenStream.pairwise_tokens t
  rw [htokens] at horder
  obtain ⟨hfront, hrest, hcross⟩ := List.pairwise_append.1 horder
  obtain ⟨-, hback, hmiddle⟩ := List.pairwise_append.1 hrest
  -- the tokens of the construct and those before it start before it stops
  have hbefore : ∀ token ∈ front ++ init ++ [last], ¬ r.stop ≤ token.start := by
    intro token htoken
    have hlt := hr.start_lt_stop hbody
    rcases List.mem_append.1 htoken with hinit | hlast
    · have hle := (List.pairwise_append.1 hfront).2.2 token hinit last (by simp)
      have hstart : token.start < r.stop := calc
        token.start ≤ token.stop := Nat.le_add_right ..
        _ ≤ last.start := hle
        _ < r.stop := hlt
      exact Nat.not_le.2 hstart
    · obtain rfl := List.mem_singleton.1 hlast
      exact Nat.not_le.2 hlt
  have hbetween : ∀ token ∈ middle, token.kind = .symbol .ellipsis →
      r.stop ≤ token.start ∧ token.start < next.start := by
    intro token htoken hkind
    have hmem : token ∈ (TokenStream.ofText t).tokens := by simp [htokens, htoken]
    constructor
    · exact (hr.stop_le (Token.proper_of_mem_body hbody).2).trans
        (hcross last (by simp) token (by simp [htoken]))
    · exact (Token.start_lt_stop_of_ellipsis hmem hkind).trans_le
        (hmiddle token htoken next (by simp))
  have hafter : ∀ token ∈ next :: back, ¬ token.start < next.start := by
    refine List.forall_mem_cons.2 ⟨Nat.lt_irrefl _, fun token htoken => Nat.not_lt.2 ?_⟩
    exact (Nat.le_add_right ..).trans ((List.pairwise_cons.1 hback).1 token htoken)
  unfold dotsWithin
  rw [htokens]
  congr 1
  refine filter_between ?_ ?_ ?_
  · intro token htoken
    simp [hbefore token htoken]
  · intro token htoken
    by_cases hkind : token.kind = .symbol .ellipsis
    · obtain ⟨hle, hlt⟩ := hbetween token htoken hkind
      simp [hkind, hle, hlt]
    · rw [beq_eq_false_iff_ne.2 hkind]
      rfl
  · intro token htoken
    simp [hafter token htoken]

/-! ### The arguments of a call -/

/-- An argument has at most one token of three points after it. -/
theorem ArgumentAt.exists_append {arg : Expr × Option Offset} (h : ArgumentAt arg taken) :
    ∃ own points, taken = own ++ points ∧ StopsAt own arg.1.stop ∧
      (points.filter fun token => token.kind == .symbol .ellipsis).map Token.start =
        arg.2.toList := by
  obtain ⟨own, points, rfl, -, hstop, ⟨hnone, rfl⟩ | ⟨token, hkind, hsome, rfl⟩⟩ := h
  · exact ⟨own, [], rfl, hstop, by simp [hnone]⟩
  · exact ⟨own, [token], rfl, hstop, by simp [hkind, hsome]⟩

/-- The tokens of arguments start with the first argument; without arguments, what follows them is
next. -/
theorem exists_next (h : Separated ArgumentAt list taken) (right : Token) (back : List Token) :
    ∃ next rest, taken ++ right :: back = next :: rest ∧
      next.start = ((list.map Prod.fst).head?.map Expr.start).getD right.start := by
  cases list with
  | nil =>
    cases h
    exact ⟨right, back, rfl, rfl⟩
  | cons arg list =>
    obtain ⟨_, rest, rfl, own, points, rfl, ⟨first, hfirst, hstart⟩, -⟩ := h.head
    obtain ⟨more, rfl⟩ := List.head?_eq_some_iff.1 hfirst
    exact ⟨first, _, rfl, hstart⟩

/-- **After each argument** there are the three points taken with it. -/
theorem dotsAfterArgs_of_separated (h : Separated ArgumentAt list taken)
    (htokens : (TokenStream.ofText t).tokens = front ++ (taken ++ right :: back)) :
    dotsAfterArgs (TokenStream.ofText t).tokens right.start (list.map Prod.fst) =
      list.map fun arg => arg.2.toList := by
  induction h generalizing front with
  | nil => rfl
  | last head =>
    obtain ⟨own, points, rfl, hstop, hpoints⟩ := head.exists_append
    have hdots := dotsWithin_eq (by simpa using htokens) hstop
    simp [dotsAfterArgs, hdots, hpoints]
  | @cons arg list comma taken more head kind tail ih =>
    obtain ⟨own, points, rfl, hstop, hpoints⟩ := head.exists_append
    obtain ⟨next, rest, hnext, hstart⟩ := exists_next tail right back
    have hrest := ih (show _ = (front ++ (own ++ points) ++ [comma]) ++ (more ++ right :: back) by
      simpa using htokens)
    -- only the three points of this argument and a comma stand before the next token
    have hsplit : (TokenStream.ofText t).tokens =
        front ++ own ++ ((points ++ [comma]) ++ next :: rest) := by
      rw [htokens, ← hnext]
      simp
    have hdots := dotsWithin_eq hsplit hstop
    rw [List.filter_append, List.map_append, hpoints] at hdots
    rw [List.map_cons, dotsAfterArgs, ← hstart, hdots, hrest]
    simp [kind]

/-! ### The last argument -/

theorem getLast?_dotsAfterArgs (tokens : List Token) (rparen : Offset) (args : List Expr) :
    (dotsAfterArgs tokens rparen args).getLast? =
      args.getLast?.map fun last => dotsWithin tokens last.stop rparen := by
  induction args with
  | nil => rfl
  | cons a rest ih =>
    rw [dotsAfterArgs, List.getLast?_cons, ih]
    cases rest with
    | nil => rfl
    | cons b rest => simp [List.getLast?_cons]

/-- Without three points between two arguments, all of them stand after the last argument. -/
theorem flatten_dotsAfterArgs {callee : Expr} {lparen : Offset} {dots : Option Offset}
    (h : (Expr.call callee lparen args dots rparen).dotsBetweenArgs tokens = false) :
    (dotsAfterArgs tokens rparen args).flatten =
      (dotsAfterArgs tokens rparen args).getLast?.getD [] := by
  induction args with
  | nil => rfl
  | cons a rest ih =>
    cases rest with
    | nil => simp [dotsAfterArgs]
    | cons b rest =>
      rw [Expr.dotsBetweenArgs, List.tail_cons, List.zip_cons_cons, List.any_cons,
        Bool.or_eq_false_iff] at h
      -- none stand before the second argument, so the first adds nothing to the rest
      have hnone : dotsWithin tokens a.stop b.start = [] := by
        simpa [dotsWithin] using h.1
      have hrest := ih h.2
      rw [dotsAfterArgs, List.flatten_cons, hrest]
      simp [hnone, dotsAfterArgs, List.getLast?_cons]

theorem eq_toList_getLast? {α : Type} {list : List α} (h : list.length ≤ 1) :
    list = list.getLast?.toList := by
  match list with
  | [] => rfl
  | [a] => rfl
  | a :: b :: rest => simp at h

/-! ### Calls -/

/-- **Which three points a call records:** at most one token of three points follows an argument,
and the last of all that follow one is recorded. -/
structure RecordsDots (tokens : List Token) (args : List Expr) (dots : Option Offset)
    (rparen : Offset) : Prop where
  single : ∀ points ∈ dotsAfterArgs tokens rparen args, points.length ≤ 1
  recorded : dots = (dotsAfterArgs tokens rparen args).flatten.getLast?

theorem recordsDots_of_separated (h : Separated ArgumentAt list taken)
    (htokens : (TokenStream.ofText t).tokens = front ++ (taken ++ right :: back)) :
    RecordsDots (TokenStream.ofText t).tokens (list.map Prod.fst)
      (list.filterMap Prod.snd).getLast? right.start := by
  have hafter := dotsAfterArgs_of_separated h htokens
  constructor
  · rw [hafter, List.forall_mem_map]
    exact fun arg _ => Option.length_toList_le
  · rw [hafter, List.filterMap_eq_flatMap_toList, List.flatMap_def]

/-- **If no three points stand between two arguments,** those recorded are the only ones, and they
stand between the last argument and the closing parenthesis. -/
theorem RecordsDots.only {callee : Expr} {lparen : Offset} {dots : Option Offset}
    (h : RecordsDots tokens args dots rparen)
    (hbetween : (Expr.call callee lparen args dots rparen).dotsBetweenArgs tokens = false) :
    (dotsAfterArgs tokens rparen args).flatten = dots.toList ∧
      ∀ p ∈ dots, ∃ last ∈ args.getLast?, last.stop ≤ p ∧ p < rparen := by
  have hlast := flatten_dotsAfterArgs hbetween
  have honly : (dotsAfterArgs tokens rparen args).flatten = dots.toList := by
    rw [h.recorded]
    refine eq_toList_getLast? ?_
    rw [hlast]
    cases hslot : (dotsAfterArgs tokens rparen args).getLast? with
    | none => exact Nat.zero_le 1
    | some points => exact h.single points (List.mem_of_getLast? hslot)
  refine ⟨honly, fun p hp => ?_⟩
  have hmem : p ∈ dots.toList := by simpa using hp
  rw [← honly, hlast, getLast?_dotsAfterArgs] at hmem
  cases hargs : args.getLast? with
  | none => simp [hargs] at hmem
  | some last => exact ⟨last, rfl, mem_dotsWithin (by simpa [hargs] using hmem)⟩

/-- **Every call of a text** records the last three points that follow one of its arguments; if none
stand between two arguments, these follow the last argument and are the only ones. -/
theorem parse_ellipsis {file : File} {callee : Expr} {lparen : Offset} {dots : Option Offset}
    (h : parse t = .ok file) (hcall : .call callee lparen args dots rparen ∈ file.exprs) :
    RecordsDots (TokenStream.ofText t).tokens args dots rparen ∧
      ((Expr.call callee lparen args dots rparen).dotsBetweenArgs
          (TokenStream.ofText t).tokens = false →
        (dotsAfterArgs (TokenStream.ofText t).tokens rparen args).flatten = dots.toList ∧
          ∀ p ∈ dots, ∃ last ∈ args.getLast?, last.stop ≤ p ∧ p < rparen) := by
  obtain ⟨⟨taken, rest, htokens, -, hspells⟩, -⟩ := parse_eq_ok h
  obtain ⟨front, list, own, right, back, rfl, rfl, -, hlist, rfl, rfl⟩ := hspells.calls _ hcall
  have hrecords := recordsDots_of_separated hlist
    (show _ = front ++ (own ++ right :: (back ++ rest)) by simpa using htokens)
  exact ⟨hrecords, hrecords.only⟩

/-- A call with three points after its second argument. -/
theorem parse_ellipsis_variadic :
    ∃ file callee lparen args rparen, parse "package p\nvar x = f(1, a...)\n".toList = .ok file ∧
      .call callee lparen args (some 24) rparen ∈ file.exprs ∧
      RecordsDots (TokenStream.ofText "package p\nvar x = f(1, a...)\n".toList).tokens args
        (some 24) rparen ∧
      ∃ last ∈ args.getLast?, last.stop ≤ 24 ∧ 24 < rparen := by
  obtain ⟨file, hparse, hcalls⟩ :
      ∃ file, parse "package p\nvar x = f(1, a...)\n".toList = .ok file ∧
        (file.exprs.any fun e => (e.args?.any fun call => call.2 == some 24) &&
          !e.dotsBetweenArgs
            (TokenStream.ofText "package p\nvar x = f(1, a...)\n".toList).tokens) = true := by
    refine exists_ok_and_of_any ?_
    decide +kernel
  obtain ⟨e, he, hcall⟩ := List.any_eq_true.1 hcalls
  obtain ⟨hargs, hbetween⟩ := Bool.and_eq_true_iff.1 hcall
  obtain ⟨⟨args, dots⟩, heq, hdots⟩ := (Option.any_eq_true _ _).1 hargs
  obtain rfl : dots = some 24 := by simpa using hdots
  obtain ⟨callee, lparen, rparen, rfl⟩ := Expr.args?_eq_some_iff.1 heq
  obtain ⟨hrecords, honly⟩ := parse_ellipsis hparse he
  exact ⟨file, callee, lparen, args, rparen, hparse, he, hrecords,
    (honly (by simpa using hbetween)).2 24 rfl⟩

/-- **A call with three points before its last argument.**  It is read, and records them, but its
tokens are not in the order in which calls are mapped. -/
theorem parse_ellipsis_between :
    ∃ file callee lparen args rparen last,
      parse "package p\nvar x = f(a..., b)\n".toList = .ok file ∧
      .call callee lparen args (some 21) rparen ∈ file.exprs ∧ last ∈ args.getLast? ∧
      21 < last.start ∧
      (mapFile ⟨"p.go", "package p\nvar x = f(a..., b)\n".toList⟩ file .strict).isOk = false := by
  obtain ⟨file, hparse, hfile⟩ :
      ∃ file, parse "package p\nvar x = f(a..., b)\n".toList = .ok file ∧
        ((file.exprs.any fun e => e.args?.any fun call =>
          call.2 == some 21 && call.1.getLast?.any fun last => decide (21 < last.start)) &&
          !(mapFile ⟨"p.go", "package p\nvar x = f(a..., b)\n".toList⟩ file .strict).isOk) =
          true := by
    refine exists_ok_and_of_any ?_
    decide +kernel
  obtain ⟨hcalls, hmap⟩ := Bool.and_eq_true_iff.1 hfile
  obtain ⟨e, he, hcall⟩ := List.any_eq_true.1 hcalls
  obtain ⟨⟨args, dots⟩, heq, hshape⟩ := (Option.any_eq_true _ _).1 hcall
  obtain ⟨hdots, hlast⟩ := Bool.and_eq_true_iff.1 hshape
  obtain rfl : dots = some 21 := by simpa using hdots
  obtain ⟨callee, lparen, rparen, rfl⟩ := Expr.args?_eq_some_iff.1 heq
  obtain ⟨last, hargs, hlt⟩ := (Option.any_eq_true _ _).1 hlast
  exact ⟨file, callee, lparen, args, rparen, last, hparse, he, hargs, of_decide_eq_true hlt,
    by simpa using hmap⟩

end GoTree
