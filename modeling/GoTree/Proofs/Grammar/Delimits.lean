import GoTree.Grammar.Rule
import GoTree.Proofs.Syntax.Recorded

/-!
# Where tokens start and stop

The tokens taken for a construct start where the construct starts.  They stop where it stops, but
the syntax tree knows this end only from the text under which their last token is stored: a raw
string is stored without its carriage returns, and then the end of the construct lies before the end
of the token.

## Main definitions

* `Keyword.isRecorded`: whether a keyword is recorded by some construct
* `Recorded.Denotes`: a recorded token stands for a token
* `StartsAt`, `StopsAt`: where tokens start, and where they stop by their stored texts
* `Located`: some of the tokens reach from one offset to another

## Main results

* `StartsAt.append`, `StopsAt.append`: more tokens after the first, and before the last
-/

namespace GoTree

open GoTree.Parser

/-- The text under which a token is recorded; tokens that are never recorded have none. -/
def Token.stored? (token : Token) : Option String :=
  match token.kind with
  | .symbol s => some s.spelling
  | .keyword k => some k.spelling
  | .literal _ => some (storedLiteral token.text)
  | .name => some (String.ofList token.text)
  | _ => none

/-- Whether a keyword is recorded by some construct; `else` and `range` are always implied. -/
def Keyword.isRecorded : Keyword → Bool
  | .elseKw | .rangeKw => false
  | _ => true

/-- The keyword of a declaration is recorded. -/
theorem DeclKind.isRecorded_keyword (kind : DeclKind) : kind.keyword.isRecorded = true := by
  cases kind <;> rfl

/-- The keyword of a jump is recorded. -/
theorem Branch.isRecorded_keyword (kind : Branch) : kind.keyword.isRecorded = true := by
  cases kind <;> rfl

/-- **A recorded token stands for a token:** they start at the same offset and are of the same class,
the recorded text is the stored one, a semicolon has characters, and a keyword is not one that is
always implied. -/
structure Recorded.Denotes (recorded : Recorded) (token : Token) : Prop where
  pos : recorded.pos = token.start
  text : token.stored? = some recorded.text
  type : recorded.type = token.kind.tokenClass
  explicit : token.kind = .symbol .semicolon → token.text ≠ []
  isRecorded : ∀ word, token.kind = .keyword word → word.isRecorded = true

namespace Recorded.Denotes

variable {token : Token}

/-- A symbol that is recorded; a semicolon must have characters for that. -/
theorem symbol {s : Symbol} (hkind : token.kind = .symbol s) (hs : s ≠ .semicolon) :
    (Recorded.symbol token.start s).Denotes token := by
  refine ⟨rfl, by simp [Token.stored?, hkind, Recorded.symbol],
    by simp [Token.Kind.tokenClass, hkind, Recorded.symbol], ?_, by simp [hkind]⟩
  intro hsemicolon
  exact absurd (by simpa [hkind] using hsemicolon) hs

theorem keyword {word : Keyword} (hkind : token.kind = .keyword word)
    (hword : word.isRecorded = true) : (Recorded.keyword token.start word).Denotes token := by
  refine ⟨rfl, by simp [Token.stored?, hkind, Recorded.keyword],
    by simp [Token.Kind.tokenClass, hkind, Recorded.keyword], by simp [hkind], ?_⟩
  intro other hother
  obtain rfl : word = other := by simpa [hkind] using hother
  exact hword

/-- What is recorded is well formed. -/
theorem kind_ne_unknown {r : Recorded} (h : r.Denotes token) : token.kind ≠ .unknown := by
  intro hkind
  simpa [Token.stored?, hkind] using h.text

end Recorded.Denotes

/-! ### First and last tokens -/

/-- **The tokens start** at an offset. -/
def StartsAt (tokens : List Token) (start : Offset) : Prop :=
  ∃ token ∈ tokens.head?, token.start = start

/-- **The tokens stop** at an offset, as far as the stored text of the last one tells. -/
def StopsAt (tokens : List Token) (stop : Offset) : Prop :=
  ∃ token ∈ tokens.getLast?, ∃ r : Recorded, r.Denotes token ∧ r.stop = stop

/-- **Some neighbouring tokens** reach from one offset to another. -/
def Located (tokens : List Token) (start stop : Offset) : Prop :=
  ∃ own, own <:+: tokens ∧ StartsAt own start ∧ StopsAt own stop

variable {tokens : List Token} {start stop : Offset}

namespace StartsAt

theorem cons (token : Token) (rest : List Token) : StartsAt (token :: rest) token.start :=
  ⟨token, rfl, rfl⟩

theorem append (h : StartsAt tokens start) (back : List Token) : StartsAt (tokens ++ back) start := by
  obtain ⟨token, htoken, hstart⟩ := h
  exact ⟨token, by simp [Option.mem_def.1 htoken], hstart⟩

end StartsAt

namespace StopsAt

theorem append (front : List Token) (h : StopsAt tokens stop) : StopsAt (front ++ tokens) stop := by
  obtain ⟨token, htoken, hr⟩ := h
  exact ⟨token, by simp [Option.mem_def.1 htoken], hr⟩

theorem singleton {token : Token} {r : Recorded} (h : r.Denotes token) : StopsAt [token] r.stop :=
  ⟨token, rfl, r, h, rfl⟩

/-- A closing bracket is one byte long. -/
theorem close {token : Token} {s : Symbol} (hkind : token.kind = .symbol s)
    (hs : s = .rightParen ∨ s = .rightBracket ∨ s = .rightBrace) :
    StopsAt [token] (token.start + 1) := by
  have hstop : (Recorded.symbol token.start s).stop = token.start + 1 := by
    rcases hs with rfl | rfl | rfl <;> simp
  exact hstop ▸ singleton (.symbol hkind (by rintro rfl; simp at hs))

end StopsAt

namespace Located

theorem of_delimits (hstart : StartsAt tokens start) (hstop : StopsAt tokens stop) :
    Located tokens start stop :=
  ⟨tokens, List.infix_rfl, hstart, hstop⟩

theorem mono {more : List Token} (h : Located tokens start stop) (hmore : tokens <:+: more) :
    Located more start stop := by
  obtain ⟨own, hown, hdelimits⟩ := h
  exact ⟨own, hown.trans hmore, hdelimits⟩

theorem append_left (front : List Token) (h : Located tokens start stop) :
    Located (front ++ tokens) start stop :=
  h.mono (List.suffix_append front tokens).isInfix

theorem append_right (h : Located tokens start stop) (back : List Token) :
    Located (tokens ++ back) start stop :=
  h.mono (List.prefix_append tokens back).isInfix

end Located

end GoTree
