import GoTree.Grammar.Error

/-!
# Parsers

A parser reads tokens off the front of a stream.  Its state holds the tokens that are left and the
**expression level**, which is negative in the header of a control statement: there a brace after a
type name opens the body and not a composite literal.  The state is kept when a parser fails, so
that what an error leaves behind can be stated.

Loops carry a bound on their rounds, the number of tokens left: every round of every loop of the
grammar takes at least one token.

## Main definitions

* `ParserState`, `Parser`: the state and the parsers over it
* `Parser.next`, `Parser.eat`, `Parser.expect`, `Parser.endStatement`: reading tokens
* `Parser.fail`, `Parser.failAt`: stopping with an error
* `Parser.withLevel`: reading at another expression level
* `Parser.untilKind`, `Parser.commaList`, `Parser.extend`: the three loops
-/

namespace GoTree

/-- The tokens left to read, and the expression level. -/
structure ParserState where
  tokens : List Token
  level : Int
deriving DecidableEq, Repr

/-- A reader of tokens. -/
def Parser (α : Type) : Type :=
  ParserState → Except SyntaxError α × ParserState

namespace Parser

variable {α β : Type}

instance : Monad Parser where
  pure a := fun s => (.ok a, s)
  bind p f := fun s =>
    match p s with
    | (.ok a, s') => f a s'
    | (.error e, s') => (.error e, s')

/-! ### Tokens -/

/-- The first token left.  A stream ends with a token for the end of the text, which is never
taken, so there always is one. -/
def current (s : ParserState) : Token :=
  s.tokens.headD (.endOfFile 0)

/-- The next token, without taking it. -/
def peek : Parser Token :=
  fun s => (.ok (current s), s)

/-- The kind of the next token. -/
def peekKind : Parser Token.Kind :=
  fun s => (.ok (current s).kind, s)

/-- The kind of the token after the next; at the end of the text, of the end. -/
def peekSecond : Parser Token.Kind :=
  fun s =>
    match s.tokens with
    | _ :: second :: _ => (.ok second.kind, s)
    | _ => (.ok (current s).kind, s)

/-- Whether the next token is of a kind. -/
def isAt (kind : Token.Kind) : Parser Bool :=
  fun s => (.ok ((current s).kind == kind), s)

/-- Takes the next token; the end of the text stays. -/
def next : Parser Token :=
  fun s =>
    match s.tokens with
    | token :: rest =>
      if token.kind = .endOfFile then (.ok token, s) else (.ok token, { s with tokens := rest })
    | [] => (.ok (current s), s)

/-- Takes the next token and returns where it starts. -/
def nextPos : Parser Offset := do
  let token ← next
  pure token.start

/-- Takes the next token if it is of a kind, and says whether it was. -/
def eat (kind : Token.Kind) : Parser Bool := do
  if ← isAt kind then
    let _ ← next
    pure true
  else
    pure false

/-! ### Errors -/

/-- Stops with an error about the bytes from `start` to `stop`. -/
def failAt (cause : Cause) (start stop : Nat) : Parser α :=
  fun s => (.error ⟨cause, start, stop⟩, s)

/-- Stops with an error about the next token. -/
def fail (cause : Cause) : Parser α :=
  fun s => (.error ⟨cause, (current s).start, (current s).stop⟩, s)

/-- Stops because something else was expected in place of the next token. -/
def failExpected (what : Expectation) : Parser α :=
  fun s => (.error ⟨.expected what (current s), (current s).start, (current s).stop⟩, s)

/-- Stops because a bound on rounds or nesting was met. -/
def exhausted : Parser α :=
  failAt .exhausted 0 0

/-- Takes a token of a kind and returns where it starts. -/
def expect (kind : Token.Kind) : Parser Offset := do
  if ← isAt kind then nextPos else failExpected (.token kind)

/-- **The end of a statement or declaration:** a semicolon, which may be left out before a closing
parenthesis or brace and at the end of the text. -/
def endStatement : Parser Unit := do
  match ← peekKind with
  | .symbol .semicolon => do
    let _ ← next
    pure ()
  | .symbol .rightParen | .symbol .rightBrace | .endOfFile => pure ()
  | _ => failExpected .semicolon

/-! ### The expression level -/

/-- The expression level. -/
def level : Parser Int :=
  fun s => (.ok s.level, s)

/-- Reads at the level that `enter` makes of the present one.  Then, whether or not the reader fails,
goes on at the level that `leave` makes of the one before and of the one at which the reader
ended. -/
def withLevel (enter : Int → Int) (leave : Int → Int → Int) (p : Parser α) : Parser α :=
  fun s =>
    let (result, s') := p { s with level := enter s.level }
    (result, { s' with level := leave s.level s'.level })

/-- Reads between brackets, one level up and then one level down, where composite literals are
allowed again. -/
def nested (p : Parser α) : Parser α :=
  withLevel (· + 1) (fun _ inner => inner - 1) p

/-- Reads the header of a control statement, where a brace after a type name opens the body.  The
level before it is kept aside. -/
def header (p : Parser α) : Parser α :=
  withLevel (fun _ => -1) (fun outer _ => outer) p

/-! ### Loops -/

/-- Runs a parser with a bound on its rounds, one more than there are tokens left. -/
def bounded (p : Nat → Parser α) : Parser α :=
  fun s => p (s.tokens.length + 1) s

/-- Items until the next token is of a kind that `stop` accepts, in at most `n` rounds. -/
def untilKindFrom (stop : Token.Kind → Bool) (item : Parser α) : Nat → Parser (List α)
  | 0 => exhausted
  | n + 1 => do
    if stop (← peekKind) then pure []
    else
      let a ← item
      let rest ← untilKindFrom stop item n
      pure (a :: rest)

/-- **Items until** the next token is of a kind that `stop` accepts. -/
def untilKind (stop : Token.Kind → Bool) (item : Parser α) : Parser (List α) :=
  bounded (untilKindFrom stop item)

/-- Items separated by commas, in at most `n` rounds. -/
def commaListFrom (stop : Token.Kind → Bool) (item : Parser α) : Nat → Parser (List α)
  | 0 => exhausted
  | n + 1 => do
    if stop (← peekKind) then pure []
    else
      let a ← item
      if ← eat (.symbol .comma) then
        let rest ← commaListFrom stop item n
        pure (a :: rest)
      else pure [a]

/-- **Items separated by commas.**  The list ends before a token of a kind that `stop` accepts, also
after a comma, and where no comma follows an item. -/
def commaList (stop : Token.Kind → Bool) (item : Parser α) : Parser (List α) :=
  bounded (commaListFrom stop item)

/-- Extends a value in at most `n` rounds. -/
def extendFrom (step : α → Parser (Option α)) : Nat → α → Parser α
  | 0, _ => exhausted
  | n + 1, a => do
    match ← step a with
    | some b => extendFrom step n b
    | none => pure a

/-- **Extends a value** for as long as `step` finds something to extend it with. -/
def extend (step : α → Parser (Option α)) (a : α) : Parser α :=
  bounded fun n => extendFrom step n a

/-! ### How parsers run -/

@[simp]
theorem pure_apply (a : α) (s : ParserState) : (pure a : Parser α) s = (.ok a, s) := rfl

theorem bind_apply (p : Parser α) (f : α → Parser β) (s : ParserState) :
    (p >>= f) s =
      match p s with
      | (.ok a, s') => f a s'
      | (.error e, s') => (.error e, s') := rfl

/-- **A sequence succeeds** when both parts do, one after the other. -/
theorem bind_eq_ok_iff {p : Parser α} {f : α → Parser β} {s t : ParserState} {b : β} :
    (p >>= f) s = (.ok b, t) ↔ ∃ a s', p s = (.ok a, s') ∧ f a s' = (.ok b, t) := by
  rw [bind_apply]
  constructor
  · intro h
    split at h
    · rename_i a s' hp
      exact ⟨a, s', hp, h⟩
    · simp at h
  · rintro ⟨a, s', hp, hf⟩
    rw [hp]
    exact hf

end Parser

end GoTree
