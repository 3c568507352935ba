import GoTree.Proofs.Grammar.Account

/-!
# Keywords of a text

A file read from a text records the keywords of the text, but not all of them: `else` and `range`
are implied by the statements they stand in, `type` by a type assertion without a type, and `chan` by
the arrow of a channel to receive from.

## Main definitions

* `File.ImpliesKeyword`: a keyword that the file does not record

## Main results

* `recorded_iff_of_parse`: a keyword of the text is recorded unless the file implies it
-/

namespace GoTree

/-- **A keyword that is implied:** `else` or `range`, the `type` in the parentheses of a type
assertion, or the `chan` behind the arrow of a channel to receive from. -/
def File.ImpliesKeyword (file : File) (tokens : List Token) (token : Token) : Prop :=
  token.kind = .keyword .elseKw ∨ token.kind = .keyword .rangeKw ∨
    ∃ e ∈ file.exprs, e.Omits tokens token

theorem File.ImpliesKeyword.exists_keyword {file : File} {tokens : List Token} {token : Token}
    (h : file.ImpliesKeyword tokens token) : ∃ word, token.kind = .keyword word := by
  rcases h with helse | hrange | ⟨e, -, front, back, -, opening, word, -, -, hkind⟩
  · exact ⟨_, helse⟩
  · exact ⟨_, hrange⟩
  · exact ⟨word, hkind⟩

theorem Keyword.isRecorded_eq_false_iff {word : Keyword} :
    word.isRecorded = false ↔ word = .elseKw ∨ word = .rangeKw := by
  cases word <;> decide

variable {t : Text} {file : File} {token : Token}

/-! ### Tokens in order -/

/-- **A token with characters stands in one place** among tokens in order. -/
theorem eq_of_append_cons {tokens before after before' after' : List Token} {x x' : Token}
    (horder : tokens.Pairwise fun a b => a.stop ≤ b.start) (h : tokens = before ++ x :: after)
    (h' : tokens = before' ++ x' :: after') (hstart : x.start = x'.start)
    (hx : x.start < x.stop) (hx' : x'.start < x'.stop) :
    before = before' ∧ x = x' ∧ after = after' := by
  induction before generalizing tokens before' with
  | nil =>
    subst h
    cases before' with
    | nil => simpa using h'
    | cons y before' =>
      -- the first token ends by where the other one starts
      obtain ⟨rfl, rfl⟩ : x = y ∧ after = before' ++ x' :: after' := by simpa using h'
      have hle := (List.pairwise_cons.1 horder).1 x' (by simp)
      omega
  | cons y before ih =>
    subst h
    rw [List.cons_append, List.pairwise_cons] at horder
    cases before' with
    | nil =>
      obtain ⟨rfl, rfl⟩ : y = x' ∧ before ++ x :: after = after' := by simpa using h'
      have hle := horder.1 x (by simp)
      omega
    | cons y' before' =>
      obtain ⟨rfl, hrest⟩ : y = y' ∧ before ++ x :: after = before' ++ x' :: after' := by
        simpa using h'
      obtain ⟨rfl, hsame⟩ := ih horder.2 rfl hrest
      exact ⟨rfl, hsame⟩

/-- A token that a recorded one stands for has characters. -/
theorem Recorded.Denotes.start_lt_token_stop {r : Recorded} (h : r.Denotes token)
    (htoken : token ∈ (TokenStream.ofText t).tokens) : token.start < token.stop :=
  Token.start_lt_stop_of_mem_body (h.mem_body htoken).1

/-- **Two tokens that recorded ones stand for are one** if they start at the same offset. -/
theorem Recorded.Denotes.unique {r r' : Recorded} {other : Token} (h : r.Denotes token)
    (h' : r'.Denotes other) (htoken : token ∈ (TokenStream.ofText t).tokens)
    (hother : other ∈ (TokenStream.ofText t).tokens) (hpos : r.pos = r'.pos) : token = other := by
  have hstart : token.start = other.start := by rw [← h.pos, hpos, h'.pos]
  exact Token.eq_of_start_eq (h.mem_body htoken).1 (h'.mem_body hother).1 hstart

/-! ### Recorded keywords -/

/-- **The keyword that an expression omits is not recorded.** -/
theorem not_denotes_of_omits {e : Expr} {r : Recorded} (hparse : parse t = .ok file)
    (he : e ∈ file.exprs) (homits : e.Omits (TokenStream.ofText t).tokens token)
    (hr : r ∈ file.recorded) : ¬ r.Denotes token := by
  intro hdenotes
  obtain ⟨⟨taken, rest, htokens, -, hspells⟩, -, -⟩ := parse_eq_ok hparse
  have horder := TokenStream.pairwise_tokens t
  obtain ⟨front, back, hsplit, opening, word, homitted, ⟨x, hx, hopening⟩, -⟩ := homits
  obtain ⟨front', token', back', htaken, hafter, hother⟩ :=
    hspells.worded.omitted e he (by simp [homitted])
  obtain ⟨opening', word', homitted', ⟨x', hx', hopening'⟩, -⟩ := hafter
  obtain ⟨rfl, rfl⟩ : opening = opening' ∧ word = word' := by simpa [homitted] using homitted'
  -- both keywords follow the same token, so they are the same one
  obtain ⟨front, rfl⟩ := List.getLast?_eq_some_iff.1 hx
  obtain ⟨front', rfl⟩ := List.getLast?_eq_some_iff.1 hx'
  have hsplit' : (TokenStream.ofText t).tokens = front' ++ x' :: (token' :: (back' ++ rest)) := by
    simp [htokens, htaken]
  have hmem : x ∈ (TokenStream.ofText t).tokens := by simp [hsplit]
  have hmem' : x' ∈ (TokenStream.ofText t).tokens := by simp [hsplit']
  obtain ⟨rfl, rfl, hback⟩ := eq_of_append_cons horder (by simpa using hsplit) hsplit'
    (hopening.pos.symm.trans hopening'.pos) (hopening.start_lt_token_stop hmem)
    (hopening'.start_lt_token_stop hmem')
  obtain ⟨rfl, rfl⟩ : token = token' ∧ back = back' ++ rest := by simpa using hback
  -- what the recorded token stands for is another token
  obtain ⟨y, hy, hdenotes'⟩ := hother r hr
  have htoken : token ∈ (TokenStream.ofText t).tokens := by simp [hsplit]
  have hy' : y ∈ (TokenStream.ofText t).tokens := by
    rw [htokens, htaken]
    rcases List.mem_append.1 hy with hy | hy
    · exact List.mem_append_left _ (List.mem_append_left _ hy)
    · exact List.mem_append_left _ (List.mem_append_right _ (List.mem_cons_of_mem _ hy))
  obtain rfl : token = y := hdenotes.unique hdenotes' htoken hy' rfl
  have hlt := hdenotes.start_lt_token_stop htoken
  rw [hsplit, List.pairwise_append, List.pairwise_cons] at horder
  rcases List.mem_append.1 hy with hy | hy
  · have hle := horder.2.2 token hy token (by simp)
    omega
  · have hle := horder.2.1.1 token (by simp [hy])
    omega

/-- **A keyword of the text is recorded unless the file implies it.** -/
theorem recorded_iff_of_parse {word : Keyword} (hparse : parse t = .ok file)
    (htoken : token ∈ (TokenStream.ofText t).tokens) (hkind : token.kind = .keyword word) :
    (∃ r ∈ file.recorded, r.Denotes token) ↔
      ¬ file.ImpliesKeyword (TokenStream.ofText t).tokens token := by
  constructor
  · rintro ⟨r, hr, hdenotes⟩ himplied
    have hrecorded := hdenotes.isRecorded word hkind
    rcases himplied with helse | hrange | ⟨e, he, homits⟩
    · obtain rfl : word = .elseKw := by simpa [hkind] using helse
      cases hrecorded
    · obtain rfl : word = .rangeKw := by simpa [hkind] using hrange
      cases hrecorded
    · exact not_denotes_of_omits hparse he homits hr hdenotes
  · intro himplied
    obtain ⟨⟨taken, rest, htokens, hrest, hspells⟩, -, -⟩ := parse_eq_ok hparse
    have hword : token.kind.isRecordedKeyword = true := by
      rw [hkind]
      by_contra hfalse
      have hword : word.isRecorded = false := by simpa [Token.Kind.isRecordedKeyword] using hfalse
      rcases Keyword.isRecorded_eq_false_iff.1 hword with rfl | rfl
      · exact himplied (.inl hkind)
      · exact himplied (.inr (.inl hkind))
    have htaken : token ∈ taken := by
      rw [htokens, List.mem_append] at htoken
      refine htoken.resolve_right fun hmem => ?_
      -- only the end of the text is left over
      cases rest with
      | nil => cases hmem
      | cons last rest =>
        obtain ⟨rfl, rfl⟩ := TokenStream.eq_endOfFile_of_append htokens hrest
        obtain rfl := List.mem_singleton.1 hmem
        cases hkind
    refine (hspells.worded.told token htaken hword).resolve_right ?_
    rintro ⟨e, he, homits⟩
    refine himplied (.inr (.inr ⟨e, he, ?_⟩))
    rw [htokens]
    exact homits.widen [] rest

end GoTree
