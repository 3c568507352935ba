import GoTree.Proofs.Grammar.File
import GoTree.Proofs.Token.Stream

/-!
# Files account for the tokens of their text

The tokens that a file records are tokens of its text, and they stop there.  If no call has three
points between two of its arguments, the file moreover accounts for every token of the text that is
neither blank nor a comment: it is recorded, in order, or implied.

## Main definitions

* `Expr.dotsBetweenArgs`: whether a call has three points between two arguments
* `Token.hasQuotedReturn`, `Token.HasRawReturn`: literals that hold a carriage return, quoted and raw

## Main results

* `Token.stored?_eq_some`, `Token.storedSize_eq`: the text under which a token is recorded, and its
  size
* `Recorded.Denotes.mem_body`: a recorded token is a token of the text
* `accounts_of_parse`: a file accounts for the tokens of its text
-/

namespace GoTree

open GoTree.Parser

/-! ### Stored texts -/

/-- **Whether a quoted literal holds a carriage return.** -/
def Token.hasQuotedReturn (token : Token) : Bool :=
  (token.kind == .literal .char ||
    token.kind == .literal .string && token.text.head? != some '\x60') &&
    token.text.contains '\r'

/-- **A raw string with carriage returns;** it is stored without them. -/
structure Token.HasRawReturn (token : Token) : Prop where
  literal : ∃ l, token.kind = .literal l
  quote : token.text.head? = some '\x60'
  mem : '\r' ∈ token.text

theorem Token.hasQuotedReturn_of_not_mem {token : Token} (h : '\r' ∉ token.text) :
    token.hasQuotedReturn = false := by
  simp [hasQuotedReturn, h]

/-- A text without carriage returns has none in a literal. -/
theorem TokenStream.hasQuotedReturn_of_not_mem {t : Text} (h : '\r' ∉ t) :
    ∀ token ∈ (ofText t).tokens, token.hasQuotedReturn = false := by
  intro token htoken
  exact Token.hasQuotedReturn_of_not_mem
    (Text.not_return_mem_of_slice? h (slice?_of_mem_tokens htoken))

theorem Symbol.not_return_mem_chars (s : Symbol) : '\r' ∉ s.chars := by
  cases s <;> decide

theorem Keyword.not_return_mem_spelling (k : Keyword) : '\r' ∉ k.spelling.toList := by
  cases k <;> decide

/-- A text without carriage returns is stored as it is. -/
theorem Text.stored_of_not_mem {x : Text} (h : '\r' ∉ x) :
    String.ofList x = String.ofList x.withoutReturns ∧ x.getLast? ≠ some '\r' := by
  rw [withoutReturns_of_not_mem h]
  exact ⟨rfl, fun hlast => h (List.mem_of_getLast? hlast)⟩

/-- A raw string is stored without its carriage returns, and so is a literal that has none. -/
theorem storedLiteral_eq {x : Text}
    (h : (x.head? = some '\x60' ∧ x.getLast? = some '\x60') ∨ '\r' ∉ x) :
    storedLiteral x = String.ofList x.withoutReturns ∧ x.getLast? ≠ some '\r' := by
  rcases h with ⟨hhead, hlast⟩ | hfree
  · rw [storedLiteral, if_pos hhead]
    exact ⟨rfl, by simp [hlast]⟩
  · rw [storedLiteral, Text.withoutReturns_of_not_mem hfree, ite_self]
    exact ⟨rfl, fun hlast => hfree (List.mem_of_getLast? hlast)⟩

namespace Token

/-- **The text under which a token is recorded** is the token without its carriage returns, and the
last character is kept. -/
theorem stored?_eq_some {token : Token} {stored : String} (hproper : token.Proper)
    (hreturn : token.hasQuotedReturn = false) (h : token.stored? = some stored) :
    stored = String.ofList token.text.withoutReturns ∧ token.text.getLast? ≠ some '\r' := by
  obtain ⟨kind, start, text⟩ := token
  cases kind with
  | symbol s =>
    obtain rfl : text = s.chars := hproper
    obtain rfl : s.spelling = stored := Option.some.inj h
    simpa [Symbol.chars] using Text.stored_of_not_mem s.not_return_mem_chars
  | keyword k =>
    obtain rfl : text = k.spelling.toList := hproper
    obtain rfl : k.spelling = stored := Option.some.inj h
    simpa using Text.stored_of_not_mem k.not_return_mem_spelling
  | literal l =>
    obtain rfl : storedLiteral text = stored := Option.some.inj h
    refine storedLiteral_eq ?_
    -- of the literals only a quoted one could keep a carriage return
    rcases hproper with hraw | ⟨hhead, rfl | rfl | hfree⟩
    · exact .inl hraw
    · exact .inr (by simpa [hasQuotedReturn] using hreturn)
    · exact .inr (by simpa [hasQuotedReturn, show text.head? ≠ some '\x60' from hhead] using hreturn)
    · exact .inr hfree
  | name =>
    obtain rfl : String.ofList text = stored := Option.some.inj h
    exact Text.stored_of_not_mem hproper
  | whitespace | newline | lineComment | blockComment | unknown | endOfFile =>
    simp [stored?] at h

/-- **A token is stored in as many bytes as it has**, unless it is a raw string with carriage
returns. -/
theorem storedSize_eq {token : Token} {stored : String} (hproper : token.Proper)
    (h : token.stored? = some stored) :
    (¬ token.HasRawReturn ∧ storedSize stored = token.text.size) ∨
      (token.HasRawReturn ∧ storedSize stored = token.text.withoutReturns.size) := by
  obtain ⟨kind, start, text⟩ := token
  cases kind with
  | symbol s =>
    obtain rfl : text = s.chars := hproper
    obtain rfl : s.spelling = stored := Option.some.inj h
    exact .inl ⟨by rintro ⟨⟨_, ⟨⟩⟩, -, -⟩, rfl⟩
  | keyword k =>
    obtain rfl : text = k.spelling.toList := hproper
    obtain rfl : k.spelling = stored := Option.some.inj h
    exact .inl ⟨by rintro ⟨⟨_, ⟨⟩⟩, -, -⟩, rfl⟩
  | literal l =>
    obtain rfl : storedLiteral text = stored := Option.some.inj h
    unfold storedLiteral storedSize
    rw [String.toList_ofList]
    -- only a raw string is stored without its carriage returns
    split
    · rename_i hquote
      by_cases hreturn : '\r' ∈ text
      · exact .inr ⟨⟨⟨l, rfl⟩, hquote, hreturn⟩, rfl⟩
      · rw [Text.withoutReturns_of_not_mem hreturn]
        exact .inl ⟨fun hraw => hreturn hraw.mem, rfl⟩
    · rename_i hquote
      exact .inl ⟨fun hraw => hquote hraw.quote, rfl⟩
  | name =>
    obtain rfl : String.ofList text = stored := Option.some.inj h
    exact .inl ⟨by rintro ⟨⟨_, ⟨⟩⟩, -, -⟩, by simp [storedSize]⟩
  | whitespace | newline | lineComment | blockComment | unknown | endOfFile =>
    simp [stored?] at h

end Token

/-! ### Recorded tokens -/

variable {t : Text} {r : Recorded} {token : Token}

/-- **A recorded token is a token of the text** that is neither blank nor a comment. -/
theorem Recorded.Denotes.mem_body (h : r.Denotes token)
    (htoken : token ∈ (TokenStream.ofText t).tokens) :
    token ∈ Token.body t ∧ token.kind.isTrivia = false := by
  rcases TokenStream.mem_tokens htoken with hmem | ⟨hkind, hempty⟩ | rfl
  · exact hmem
  · exact absurd hempty (h.explicit hkind)
  · simpa [Token.stored?, Token.endOfFile] using h.text

/-- **A recorded token stops where the token does**, unless that is a raw string with carriage
returns; then it stops that much earlier. -/
theorem Recorded.Denotes.stop_eq (h : r.Denotes token) (hproper : token.Proper) :
    (¬ token.HasRawReturn ∧ r.stop = token.stop) ∨
      (token.HasRawReturn ∧ r.stop = token.start + token.text.withoutReturns.size) := by
  rw [Recorded.stop, Token.stop, h.pos]
  rcases Token.storedSize_eq hproper h.text with ⟨hplain, hsize⟩ | ⟨hraw, hsize⟩
  · exact .inl ⟨hplain, by rw [hsize]⟩
  · exact .inr ⟨hraw, by rw [hsize]⟩

theorem Recorded.Denotes.stop_le (h : r.Denotes token) (hproper : token.Proper) :
    r.stop ≤ token.stop := by
  rcases h.stop_eq hproper with ⟨-, hstop⟩ | ⟨-, hstop⟩
  · exact Nat.le_of_eq hstop
  · rw [hstop]
    exact Nat.add_le_add_left token.text.size_withoutReturns_le token.start

/-- A recorded token stops after the token starts: a raw string keeps its quotes. -/
theorem Recorded.Denotes.start_lt_stop (h : r.Denotes token) (htoken : token ∈ Token.body t) :
    token.start < r.stop := by
  rcases h.stop_eq (Token.proper_of_mem_body htoken).2 with ⟨-, hstop⟩ | ⟨hraw, hstop⟩
  · rw [hstop]
    exact Token.start_lt_stop_of_mem_body htoken
  · obtain ⟨rest, hrest⟩ := List.head?_eq_some_iff.1 hraw.quote
    have hquote : token.text.withoutReturns ≠ [] := by
      rw [hrest, Text.withoutReturns_cons (by decide)]
      exact List.cons_ne_nil _ _
    rw [hstop]
    exact Nat.lt_add_of_pos_right (Text.size_pos hquote)

/-- Three points have bytes. -/
theorem Token.start_lt_stop_of_ellipsis (htoken : token ∈ (TokenStream.ofText t).tokens)
    (hkind : token.kind = .symbol .ellipsis) : token.start < token.stop := by
  rcases TokenStream.mem_tokens htoken with ⟨hbody, -⟩ | ⟨hsemicolon, -⟩ | rfl
  · exact Token.start_lt_stop_of_mem_body hbody
  · simp [hkind] at hsemicolon
  · simp [Token.endOfFile] at hkind

/-- **Whether a call has three points between two neighbouring arguments.** -/
def Expr.dotsBetweenArgs (tokens : List Token) : Expr → Bool
  | .call _ _ args _ _ =>
    (args.zip args.tail).any fun pair => tokens.any fun token =>
      token.kind == .symbol .ellipsis &&
        decide (pair.1.stop ≤ token.start) && decide (token.start < pair.2.start)
  | _ => false

theorem mem_zip_tail {α : Type} (before : List α) (a b : α) (after : List α) :
    (a, b) ∈ (before ++ a :: b :: after).zip (before ++ a :: b :: after).tail := by
  induction before with
  | nil => simp
  | cons c before ih =>
    cases before with
    | nil => simp
    | cons d before => exact List.mem_cons_of_mem _ ih

/-- Three points that are lost stand between two arguments. -/
theorem StrayDots.exists_dotsBetweenArgs {taken rest : List Token} {exprs : List Expr}
    (htokens : (TokenStream.ofText t).tokens = taken ++ rest) (h : StrayDots taken exprs) :
    ∃ e ∈ exprs, e.dotsBetweenArgs (TokenStream.ofText t).tokens = true := by
  obtain ⟨callee, lparen, args, dots, rparen, hcall, before, a, b, after, rfl, earlier, points,
    later, rfl, hkind, hbefore, x, hx, hstart⟩ := h
  have hmem : points ∈ (TokenStream.ofText t).tokens := by simp [htokens]
  have horder := TokenStream.pairwise_tokens t
  rw [htokens, List.append_assoc, List.cons_append,
    List.pairwise_append] at horder
  -- the first argument stops before the points
  have ha : a.stop ≤ points.start := by
    refine a.stop_le fun r hr => ?_
    obtain ⟨y, hy, hdenotes⟩ := hbefore r hr
    have hbody := (hdenotes.mem_body (t := t) (by simp [htokens, hy])).1
    exact (hdenotes.stop_le (Token.proper_of_mem_body hbody).2).trans
      (horder.2.2 y hy points (by simp))
  -- the points have bytes, so the second argument starts after them
  have hb : points.start < b.start := by
    calc points.start < points.stop := Token.start_lt_stop_of_ellipsis hmem hkind
      _ ≤ x.start := (List.pairwise_cons.1 horder.2.1).1 x (by simp [hx])
      _ = b.start := hstart
  refine ⟨_, hcall, ?_⟩
  rw [Expr.dotsBetweenArgs, List.any_eq_true]
  refine ⟨(a, b), mem_zip_tail before a b after, ?_⟩
  rw [List.any_eq_true]
  exact ⟨points, hmem, by simp [hkind, ha, hb]⟩

/-! ### Accounting -/

/-- Tokens without characters need no account. -/
theorem Accounts.filter {tokens : List Token} {recorded : List Recorded}
    (h : Accounts tokens recorded)
    (hempty : ∀ token ∈ tokens, token.text = [] → token.kind = .symbol .semicolon) :
    Accounts (tokens.filter fun token => !token.text.isEmpty) recorded := by
  induction h with
  | nil => exact .nil
  | @implied token tokens recorded kind rest ih =>
    rw [List.forall_mem_cons] at hempty
    rw [List.filter_cons]
    split
    · exact .implied kind (ih hempty.2)
    · exact ih hempty.2
  | @recorded token tokens r recorded denotes rest ih =>
    rw [List.forall_mem_cons] at hempty
    have hne : token.text ≠ [] := fun hnil => denotes.explicit (hempty.1 hnil) hnil
    rw [List.filter_cons_of_pos (by simpa using hne)]
    exact .recorded denotes (ih hempty.2)

theorem Accounts.not_isEnd {tokens : List Token} {recorded : List Recorded}
    (h : Accounts tokens recorded) : ∀ token ∈ tokens, token.kind ≠ .endOfFile := by
  induction h with
  | nil => simp
  | @implied token tokens recorded kind rest ih =>
    refine List.forall_mem_cons.2 ⟨?_, ih⟩
    intro hend
    exact absurd (hend ▸ kind) (by decide)
  | @recorded token tokens r recorded denotes rest ih =>
    refine List.forall_mem_cons.2 ⟨?_, ih⟩
    intro hend
    simpa [Token.stored?, hend] using denotes.text

/-- **A file accounts for the tokens of its text**, unless a call has three points between two of
its arguments. -/
theorem accounts_of_parse {file : File} (h : parse t = .ok file)
    (hdots : ∀ e ∈ file.exprs, e.dotsBetweenArgs (TokenStream.ofText t).tokens = false) :
    Accounts ((Token.body t).filter fun token => !token.kind.isTrivia) file.recorded := by
  obtain ⟨⟨taken, rest, htokens, hrest, hspells⟩, -, -⟩ := parse_eq_ok h
  have haccounts : Accounts taken file.recorded := by
    refine hspells.accounts.resolve_right fun hstray => ?_
    obtain ⟨e, he, hdots'⟩ := hstray.exists_dotsBetweenArgs htokens
    simp [hdots e he] at hdots'
  -- only the end of the text, which has no characters, is left over
  have hleft : rest.filter (fun token => !token.text.isEmpty) = [] := by
    cases rest with
    | nil => rfl
    | cons last rest =>
      obtain ⟨rfl, rfl⟩ := TokenStream.eq_endOfFile_of_append htokens hrest
      rfl
  rw [← TokenStream.filter_tokens, htokens, List.filter_append, hleft, List.append_nil]
  refine haccounts.filter fun token htoken hempty => ?_
  have hmem : token ∈ (TokenStream.ofText t).tokens := by simp [htokens, htoken]
  rcases TokenStream.mem_tokens hmem with ⟨hbody, -⟩ | ⟨hkind, -⟩ | rfl
  · exact absurd hempty (Token.proper_of_mem_body hbody).1
  · exact hkind
  · exact absurd rfl (haccounts.not_isEnd _ htoken)

end GoTree
