import GoTree.Proofs.Grammar.Reads
import GoTree.Proofs.Mapping.Word
import GoTree.Proofs.Syntax.Recorded

/-!
# How tokens spell a construct

The tokens taken for a construct spell it: some of them are recorded in the syntax tree, in the
order of the source, and the others are implied.  The grammar keeps to this with one exception.  In a
call it takes three points after any argument but records only the last of them, so where an argument
with three points is followed by another argument, a token is lost.

## Main definitions

* `Token.Kind.IsImplied`: the kinds of tokens that need not be recorded
* `Accounts`: tokens that are recorded, in order, or implied
* `StrayDots`: three points between two arguments of a call
* `Expr.args?`: the arguments of a call
* `ArgumentAt`, `Expr.CallIn`: the tokens of the arguments of a call
* `Expr.omitted?`, `Expr.Omits`: the keyword that an expression does not record
* `Worded`: which keywords are recorded
* `Spells`: what the tokens taken for a construct have to do with what it records

## Main results

* `Spells.append`: constructs one after the other
-/

namespace GoTree

open GoTree.Parser

/-- The kinds of tokens that need not be recorded. -/
def Token.Kind.IsImplied (kind : Token.Kind) : Prop :=
  ∃ word ∈ impliedWords, kind.spelling? = some word

instance (kind : Token.Kind) : Decidable kind.IsImplied :=
  inferInstanceAs (Decidable (∃ word ∈ impliedWords, kind.spelling? = some word))

theorem Token.Kind.IsImplied.ne_unknown {kind : Token.Kind} (h : kind.IsImplied) :
    kind ≠ .unknown := by
  rintro rfl
  obtain ⟨word, -, hword⟩ := h
  cases hword

/-- Whether a kind is a keyword that some constructs record. -/
def Token.Kind.isRecordedKeyword : Token.Kind → Bool
  | .keyword word => word.isRecorded
  | _ => false

/-! ### Accounting for tokens -/

/-- **Every token is accounted for:** it is implied, or it is the next recorded one. -/
inductive Accounts : List Token → List Recorded → Prop
  | nil : Accounts [] []
  | implied {token : Token} {tokens : List Token} {recorded : List Recorded}
      (kind : token.kind.IsImplied) (rest : Accounts tokens recorded) :
      Accounts (token :: tokens) recorded
  | recorded {token : Token} {tokens : List Token} {r : Recorded} {recorded : List Recorded}
      (denotes : r.Denotes token) (rest : Accounts tokens recorded) :
      Accounts (token :: tokens) (r :: recorded)

theorem Accounts.append {tokens more : List Token} {recorded others : List Recorded}
    (h : Accounts tokens recorded) (h' : Accounts more others) :
    Accounts (tokens ++ more) (recorded ++ others) := by
  induction h with
  | nil => exact h'
  | implied kind _ ih => exact .implied kind ih
  | recorded denotes _ ih => exact .recorded denotes ih

/-- **Three points between two arguments** of a call among `exprs`: the tokens recorded for the
first argument stand before them, and the second argument starts with a token after them. -/
def StrayDots (tokens : List Token) (exprs : List Expr) : Prop :=
  ∃ callee lparen args dots rparen, .call callee lparen args dots rparen ∈ exprs ∧
    ∃ before a b after, args = before ++ a :: b :: after ∧
      ∃ earlier token later, tokens = earlier ++ token :: later ∧
        token.kind = .symbol .ellipsis ∧ (∀ r ∈ a.recorded, ∃ x ∈ earlier, r.Denotes x) ∧
        ∃ x ∈ later, x.start = b.start

namespace StrayDots

/-- More tokens on either side and more expressions change nothing. -/
theorem widen {tokens : List Token} {exprs exprs' : List Expr} (h : StrayDots tokens exprs)
    (front back : List Token)
    (hexprs : ∀ callee lparen args dots rparen, .call callee lparen args dots rparen ∈ exprs →
      .call callee lparen args dots rparen ∈ exprs') :
    StrayDots (front ++ tokens ++ back) exprs' := by
  obtain ⟨callee, lparen, args, dots, rparen, hcall, before, a, b, after, hargs, earlier, token,
    later, rfl, hkind, hbefore, x, hx, hstart⟩ := h
  refine ⟨callee, lparen, args, dots, rparen, hexprs _ _ _ _ _ hcall, before, a, b, after, hargs,
    front ++ earlier, token, later ++ back, by simp, hkind, ?_, x, by simp [hx], hstart⟩
  intro r hr
  obtain ⟨y, hy, hdenotes⟩ := hbefore r hr
  exact ⟨y, by simp [hy], hdenotes⟩

end StrayDots

/-! ### Calls -/

/-- The arguments of a call, and the three points it records; nothing for other expressions. -/
def Expr.args? : Expr → Option (List Expr × Option Offset)
  | .call _ _ args dots _ => some (args, dots)
  | _ => none

theorem Expr.args?_eq_some_iff {e : Expr} {args : List Expr} {dots : Option Offset} :
    e.args? = some (args, dots) ↔
      ∃ callee lparen rparen, e = .call callee lparen args dots rparen := by
  cases e <;> simp [Expr.args?]

/-- **The tokens of an argument:** those of the expression, and the three points after it, if it has
any. -/
def ArgumentAt (arg : Expr × Option Offset) (taken : List Token) : Prop :=
  ∃ own points, taken = own ++ points ∧ StartsAt own arg.1.start ∧ StopsAt own arg.1.stop ∧
    (arg.2 = none ∧ points = [] ∨
      ∃ token, token.kind = .symbol .ellipsis ∧ arg.2 = some token.start ∧ points = [token])

/-- **The tokens of a call** are among these: the arguments, with commas between them, stand between
its parentheses, and the points it records are the last that follow an argument.  Of other
expressions this says nothing. -/
def Expr.CallIn (tokens : List Token) : Expr → Prop
  | .call _ _ args dots rparen => ∃ front list taken right back,
      tokens = front ++ (taken ++ right :: back) ∧ right.start = rparen ∧
        right.kind = .symbol .rightParen ∧ Separated ArgumentAt list taken ∧
          args = list.map Prod.fst ∧ dots = (list.filterMap Prod.snd).getLast?
  | _ => True

/-- More tokens on either side change nothing. -/
theorem Expr.CallIn.widen {tokens : List Token} {e : Expr} (h : e.CallIn tokens)
    (front back : List Token) : e.CallIn (front ++ (tokens ++ back)) := by
  cases e with
  | call callee lparen args dots rparen =>
    obtain ⟨front', list, taken, right, back', rfl, hcall⟩ := h
    exact ⟨front ++ front', list, taken, right, back' ++ back, by simp, hcall⟩
  | _ => trivial

/-! ### Keywords -/

/-- **The keyword that an expression does not record**, with the recorded token it follows: `type` in
a type assertion without a type, and `chan` behind the arrow of a channel to receive from. -/
def Expr.omitted? : Expr → Option (Recorded × Keyword)
  | .typeAssert _ lparen none _ => some (.symbol lparen .leftParen, .typeKw)
  | .chanType pos _ .receive _ => some (.symbol pos .arrow, .chanKw)
  | _ => none

/-- **The keyword that an expression omits** stands behind `front` among these tokens. -/
def Expr.OmitsAfter (e : Expr) (front : List Token) (token : Token) : Prop :=
  ∃ opening word, e.omitted? = some (opening, word) ∧ (∃ x ∈ front.getLast?, opening.Denotes x) ∧
    token.kind = .keyword word

theorem Expr.OmitsAfter.widen {e : Expr} {front : List Token} {token : Token}
    (h : e.OmitsAfter front token) (more : List Token) : e.OmitsAfter (more ++ front) token := by
  obtain ⟨opening, word, hword, ⟨x, hx, hdenotes⟩, hkind⟩ := h
  exact ⟨opening, word, hword, ⟨x, by simp [Option.mem_def.1 hx], hdenotes⟩, hkind⟩

/-- An expression omits a keyword somewhere among these tokens. -/
def Expr.Omits (e : Expr) (tokens : List Token) (token : Token) : Prop :=
  ∃ front back, tokens = front ++ token :: back ∧ e.OmitsAfter front token

/-- More tokens on either side change nothing. -/
theorem Expr.Omits.widen {e : Expr} {tokens : List Token} {token : Token}
    (h : e.Omits tokens token) (front back : List Token) :
    e.Omits (front ++ (tokens ++ back)) token := by
  obtain ⟨before, after, rfl, hafter⟩ := h
  exact ⟨front ++ before, after ++ back, by simp, hafter.widen front⟩

/-- **Which keywords are recorded:** all but those that no construct records and those that an
expression omits.  The keyword that an expression omits is there, and it is not recorded. -/
structure Worded (tokens : List Token) (recorded : List Recorded) (exprs : List Expr) : Prop where
  told : ∀ token ∈ tokens, token.kind.isRecordedKeyword = true →
    (∃ r ∈ recorded, r.Denotes token) ∨ ∃ e ∈ exprs, e.Omits tokens token
  omitted : ∀ e ∈ exprs, e.omitted?.isSome = true → ∃ front token back,
    tokens = front ++ token :: back ∧ e.OmitsAfter front token ∧
      ∀ r ∈ recorded, ∃ x ∈ front ++ back, r.Denotes x

/-- An expression that says nothing about its tokens beyond what it records. -/
def Expr.isPlain (e : Expr) : Bool :=
  e.args?.isNone && e.omitted?.isNone

/-! ### Spelling -/

/-- **What the tokens taken for a construct have to do with what it records.**  Every recorded token
stands for a token taken, and every token taken is well formed.  Unless three points stand between
two arguments of a call inside the construct, the tokens are moreover recorded in order or implied. -/
structure Accounted (tokens : List Token) (recorded : List Recorded) (exprs : List Expr) :
    Prop where
  mem : ∀ r ∈ recorded, ∃ token ∈ tokens, r.Denotes token
  known : ∀ token ∈ tokens, token.kind ≠ .unknown
  accounts : Accounts tokens recorded ∨ StrayDots tokens exprs

/-- **The tokens that spell a construct:** they account for what it records, and hold the tokens of
every call and every keyword inside it. -/
structure Spells (tokens : List Token) (recorded : List Recorded) (exprs : List Expr) : Prop
    extends Accounted tokens recorded exprs where
  calls : ∀ e ∈ exprs, e.CallIn tokens
  worded : Worded tokens recorded exprs

variable {tokens more : List Token} {recorded others : List Recorded} {exprs exprs' : List Expr}

namespace Accounted

theorem nil : Accounted [] [] [] :=
  ⟨by simp, by simp, .inl .nil⟩

/-- **Constructs one after the other.** -/
theorem append (h : Accounted tokens recorded exprs) (h' : Accounted more others exprs') :
    Accounted (tokens ++ more) (recorded ++ others) (exprs ++ exprs') := by
  constructor
  · intro r hr
    rcases List.mem_append.1 hr with hr | hr
    · obtain ⟨token, htoken, hdenotes⟩ := h.mem r hr
      exact ⟨token, by simp [htoken], hdenotes⟩
    · obtain ⟨token, htoken, hdenotes⟩ := h'.mem r hr
      exact ⟨token, by simp [htoken], hdenotes⟩
  · exact List.forall_mem_append.2 ⟨h.known, h'.known⟩
  · -- points that stray on one side stray in the whole
    rcases h.accounts with haccounts | hstray
    · rcases h'.accounts with haccounts' | hstray'
      · exact .inl (haccounts.append haccounts')
      · refine .inr ?_
        simpa using hstray'.widen tokens [] fun _ _ _ _ _ hcall => by simp [hcall]
    · refine .inr ?_
      simpa using hstray.widen [] more fun _ _ _ _ _ hcall => by simp [hcall]

/-- Only the calls among the expressions matter. -/
theorem of_calls (h : Accounted tokens recorded exprs)
    (hexprs : ∀ callee lparen args dots rparen, .call callee lparen args dots rparen ∈ exprs →
      .call callee lparen args dots rparen ∈ exprs') : Accounted tokens recorded exprs' := by
  refine ⟨h.mem, h.known, h.accounts.imp_right fun hstray => ?_⟩
  simpa using hstray.widen [] [] hexprs

theorem mono (h : Accounted tokens recorded exprs) (hexprs : ∀ e ∈ exprs, e ∈ exprs') :
    Accounted tokens recorded exprs' :=
  h.of_calls fun _ _ _ _ _ hcall => hexprs _ hcall

/-- The same lists, written another way. -/
theorem congr (h : Accounted tokens recorded exprs) (htokens : tokens = more)
    (hrecorded : recorded = others) (hexprs : exprs = exprs') : Accounted more others exprs' := by
  subst htokens hrecorded hexprs
  exact h

end Accounted

namespace Worded

theorem nil : Worded [] [] [] :=
  ⟨by simp, by simp⟩

/-- **Constructs one after the other.** -/
theorem append (h : Worded tokens recorded exprs) (h' : Worded more others exprs')
    (hmem : ∀ r ∈ recorded, ∃ token ∈ tokens, r.Denotes token)
    (hmem' : ∀ r ∈ others, ∃ token ∈ more, r.Denotes token) :
    Worded (tokens ++ more) (recorded ++ others) (exprs ++ exprs') := by
  constructor
  · -- a keyword is told among the tokens it was taken with, and more tokens do not change that
    intro token htoken hkind
    rcases List.mem_append.1 htoken with htoken | htoken
    · rcases h.told token htoken hkind with ⟨r, hr, hdenotes⟩ | ⟨e, he, homits⟩
      · exact .inl ⟨r, by simp [hr], hdenotes⟩
      · exact .inr ⟨e, by simp [he], by simpa using homits.widen [] more⟩
    · rcases h'.told token htoken hkind with ⟨r, hr, hdenotes⟩ | ⟨e, he, homits⟩
      · exact .inl ⟨r, by simp [hr], hdenotes⟩
      · exact .inr ⟨e, by simp [he], by simpa using homits.widen tokens []⟩
  · -- what the other side records stands for tokens taken there, all before or all behind
    intro e he hsome
    rcases List.mem_append.1 he with he | he
    · obtain ⟨front, token, back, rfl, hafter, hother⟩ := h.omitted e he hsome
      refine ⟨front, token, back ++ more, by simp, hafter, fun r hr => ?_⟩
      rcases List.mem_append.1 hr with hr | hr
      · obtain ⟨x, hx, hdenotes⟩ := hother r hr
        exact ⟨x, by simpa using List.mem_append_left more hx, hdenotes⟩
      · obtain ⟨x, hx, hdenotes⟩ := hmem' r hr
        exact ⟨x, by simp [hx], hdenotes⟩
    · obtain ⟨front, token, back, rfl, hafter, hother⟩ := h'.omitted e he hsome
      refine ⟨tokens ++ front, token, back, by simp, hafter.widen tokens, fun r hr => ?_⟩
      rcases List.mem_append.1 hr with hr | hr
      · obtain ⟨x, hx, hdenotes⟩ := hmem r hr
        exact ⟨x, by simp [hx], hdenotes⟩
      · obtain ⟨x, hx, hdenotes⟩ := hother r hr
        exact ⟨x, by simpa using List.mem_append_right tokens hx, hdenotes⟩

/-- The same lists, written another way. -/
theorem congr (h : Worded tokens recorded exprs) (htokens : tokens = more)
    (hrecorded : recorded = others) (hexprs : exprs = exprs') : Worded more others exprs' := by
  subst htokens hrecorded hexprs
  exact h

/-- Only the keywords among the recorded tokens have to be kept. -/
theorem of_recorded (h : Worded tokens recorded exprs)
    (hkept : ∀ r ∈ recorded, r.type = .keyword → r ∈ others) (hsub : ∀ r ∈ others, r ∈ recorded) :
    Worded tokens others exprs := by
  constructor
  · intro token htoken hkind
    refine (h.told token htoken hkind).imp_left ?_
    rintro ⟨r, hr, hdenotes⟩
    refine ⟨r, hkept r hr ?_, hdenotes⟩
    -- what stands for a keyword has the class of keywords
    rw [hdenotes.type]
    cases hword : token.kind <;> simp_all [Token.Kind.isRecordedKeyword, Token.Kind.tokenClass]
  · intro e he hsome
    obtain ⟨front, token, back, htokens, hafter, hother⟩ := h.omitted e he hsome
    exact ⟨front, token, back, htokens, hafter, fun r hr => hother r (hsub r hr)⟩

/-- Only the expressions that omit a keyword matter. -/
theorem of_omitted (h : Worded tokens recorded exprs)
    (hexprs : ∀ e, e.omitted?.isSome = true → (e ∈ exprs ↔ e ∈ exprs')) :
    Worded tokens recorded exprs' := by
  constructor
  · intro token htoken hkind
    refine (h.told token htoken hkind).imp_right ?_
    rintro ⟨e, he, front, back, htokens, opening, word, homitted, hafter⟩
    exact ⟨e, (hexprs e (by simp [homitted])).1 he, front, back, htokens, opening, word, homitted,
      hafter⟩
  · intro e he hsome
    exact h.omitted e ((hexprs e hsome).2 he) hsome

end Worded

namespace Spells

theorem nil : Spells [] [] [] :=
  ⟨.nil, by simp, .nil⟩

/-- **Constructs one after the other.** -/
theorem append (h : Spells tokens recorded exprs) (h' : Spells more others exprs') :
    Spells (tokens ++ more) (recorded ++ others) (exprs ++ exprs') := by
  refine ⟨h.toAccounted.append h'.toAccounted, List.forall_mem_append.2 ⟨?_, ?_⟩,
    h.worded.append h'.worded h.mem h'.mem⟩
  · intro e he
    simpa using (h.calls e he).widen [] more
  · intro e he
    simpa using (h'.calls e he).widen tokens []

/-- Plain expressions do not matter. -/
theorem of_not_plain (h : Spells tokens recorded exprs)
    (hexprs : ∀ e : Expr, e.isPlain = false → (e ∈ exprs ↔ e ∈ exprs')) :
    Spells tokens recorded exprs' := by
  refine ⟨h.toAccounted.of_calls fun _ _ _ _ _ => (hexprs _ rfl).1, fun e he => ?_,
    h.worded.of_omitted fun e he => hexprs e ?_⟩
  · cases e with
    | call callee lparen args dots rparen => exact h.calls _ ((hexprs _ rfl).2 he)
    | _ => trivial
  · simp [Expr.isPlain, he]

/-- One more plain expression. -/
theorem cons_plain {e : Expr} (h : Spells tokens recorded exprs) (hplain : e.isPlain = true) :
    Spells tokens recorded (e :: exprs) := by
  refine h.of_not_plain fun other hother => ?_
  have hne : other ≠ e := by
    rintro rfl
    simp [hplain] at hother
  simp [hne]

/-- The same lists, written another way. -/
theorem congr (h : Spells tokens recorded exprs) (htokens : tokens = more)
    (hrecorded : recorded = others) (hexprs : exprs = exprs') : Spells more others exprs' := by
  subst htokens hrecorded hexprs
  exact h

theorem singleton {token : Token} {r : Recorded} (h : r.Denotes token) :
    Spells [token] [r] [] :=
  ⟨⟨by simpa using h, by simpa using h.kind_ne_unknown, .inl (.recorded h .nil)⟩, by simp,
    by simpa using fun _ => h, by simp⟩

/-- A symbol that is recorded; a semicolon must have characters for that. -/
theorem symbol {token : Token} {s : Symbol} (hkind : token.kind = .symbol s)
    (hs : s ≠ .semicolon) : Spells [token] [.symbol token.start s] [] :=
  singleton (.symbol hkind hs)

theorem keyword {token : Token} {word : Keyword} (hkind : token.kind = .keyword word)
    (hword : word.isRecorded = true) : Spells [token] [.keyword token.start word] [] :=
  singleton (.keyword hkind hword)

/-- A token that need not be recorded; a keyword must be one that is always implied. -/
theorem implied {token : Token} {kind : Token.Kind} (hkind : token.kind = kind)
    (himplied : kind.IsImplied ∧ kind.isRecordedKeyword = false) : Spells [token] [] [] := by
  subst hkind
  exact ⟨⟨by simp, by simpa using himplied.1.ne_unknown, .inl (.implied himplied.1 .nil)⟩, by simp,
    by simp [himplied.2], by simp⟩

/-- **The keyword that an expression omits,** behind the recorded token it follows. -/
theorem omitting {e : Expr} {r : Recorded} {opening token : Token} {word : Keyword}
    (he : e.omitted? = some (r, word)) (hopening : r.Denotes opening)
    (hkind : token.kind = .keyword word) (himplied : token.kind.IsImplied) :
    Spells [opening, token] [r] [e] := by
  have hafter : e.OmitsAfter [opening] token := ⟨r, word, he, ⟨opening, rfl, hopening⟩, hkind⟩
  have homits : e.Omits [opening, token] token := ⟨[opening], [], rfl, hafter⟩
  have haccounts : Accounts [opening, token] [r] := .recorded hopening (.implied himplied .nil)
  have hknown : ∀ x ∈ [opening, token], x.kind ≠ .unknown := by
    simpa using ⟨hopening.kind_ne_unknown, himplied.ne_unknown⟩
  refine ⟨⟨by simpa using .inl hopening, hknown, .inl haccounts⟩, ?_, ?_, ?_⟩
  · -- no call omits a keyword
    refine List.forall_mem_singleton.2 ?_
    cases e with
    | call => cases he
    | _ => trivial
  · intro x hx _
    simp only [List.mem_cons, List.not_mem_nil, or_false] at hx
    rcases hx with rfl | rfl
    · exact .inl ⟨r, by simp, hopening⟩
    · exact .inr ⟨e, by simp, homits⟩
  · intro other hother _
    obtain rfl : other = e := by simpa using hother
    exact ⟨[opening], token, [], rfl, hafter, by simpa using hopening⟩

end Spells

/-! ### Lists of constructs -/

section

variable {α : Type} {recorded : α → List Recorded} {exprs : α → List Expr}

/-- Constructs taken one after the other. -/
theorem Spells.each {list : List α} {tokens : List Token}
    (h : Each (fun a taken => Spells taken (recorded a) (exprs a)) list tokens) :
    Spells tokens (list.flatMap recorded) (list.flatMap exprs) := by
  induction h with
  | nil => exact .nil
  | cons head _ ih => simpa using head.append ih

/-- Constructs with commas between them. -/
theorem Spells.separated {list : List α} {tokens : List Token}
    (h : Separated (fun a taken => Spells taken (recorded a) (exprs a)) list tokens) :
    Spells tokens (list.flatMap recorded) (list.flatMap exprs) := by
  induction h with
  | nil => exact .nil
  | last head => simpa using head
  | cons head kind _ ih =>
    have hcomma : Spells [_] [] [] := .implied kind (by decide)
    simpa using head.append (hcomma.append ih)

end

end GoTree
