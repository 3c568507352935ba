import GoTree.Proofs.Token.Stream

/-!
# Automatic semicolons

The stream of a text holds its significant tokens in order, the end of the text, and semicolons
without characters.  One of these stands behind a significant token exactly when the token can end a
statement and a line breaks before the next significant token, or no such token follows; it stands
where the line breaks first.

## Main definitions

* `Token.isLineEnd`: a semicolon without characters
* `Token.lineBreak`: where a line breaks among the tokens behind a token

## Main results

* `Token.filter_not_isLineEnd`: what the stream holds beside these semicolons
* `Token.significant_append`: what the grammar reads of blanks and comments
* `TokenStream.ofText_semicolons`: where the semicolons of a text stand
-/

namespace GoTree

namespace Token

/-- Whether a token is a semicolon without characters. -/
def isLineEnd (token : Token) : Bool :=
  token.kind == .symbol .semicolon && token.text.isEmpty

@[simp]
theorem isLineEnd_lineEnd (offset : Nat) : (lineEnd offset).isLineEnd = true := rfl

@[simp]
theorem isLineEnd_endOfFile (offset : Nat) : (endOfFile offset).isLineEnd = false := rfl

theorem isLineEnd_of_ne_nil {token : Token} (h : token.text ≠ []) : token.isLineEnd = false := by
  simp [isLineEnd, h]

/-- **Where a line breaks** among blanks and comments: at the first of them that breaks it, or at
the end of the text. -/
def lineBreak (size : Nat) (trivia : List Token) : Nat :=
  ((trivia.find? breaksLine).map start).getD size

variable {size : Nat} {pending : Bool} {tokens trivia rest : List Token}

/-- **Beside the semicolons without characters** the stream holds the significant tokens and the
end of the text. -/
theorem filter_not_isLineEnd (h : ∀ token ∈ tokens, token.text ≠ []) :
    (significant size pending tokens).filter (fun token => !token.isLineEnd) =
      tokens.filter (fun token => !token.kind.isTrivia) ++ [endOfFile size] := by
  induction tokens generalizing pending with
  | nil =>
    unfold significant
    split <;> rfl
  | cons first tokens ih =>
    rw [List.forall_mem_cons] at h
    unfold significant
    split
    · rename_i htrivia
      rw [List.filter_cons_of_neg (by simp [htrivia])]
      split
      · rw [List.filter_cons_of_neg (by simp), ih h.2]
      · exact ih h.2
    · rename_i htrivia
      rw [List.filter_cons_of_pos (by simp [isLineEnd_of_ne_nil h.1]),
        List.filter_cons_of_pos (by simpa using htrivia), ih h.2, List.cons_append]

/-- **Blanks and comments** give at most one semicolon, where the line first breaks. -/
theorem significant_append (h : ∀ token ∈ trivia, token.kind.isTrivia = true) :
    significant size pending (trivia ++ rest) =
      if pending = true ∧ trivia.any breaksLine = true then
        lineEnd (lineBreak size trivia) :: significant size false rest
      else significant size pending rest := by
  induction trivia generalizing pending with
  | nil => simp
  | cons first trivia ih =>
    rw [List.forall_mem_cons] at h
    rw [List.cons_append, significant, if_pos h.1, List.any_cons]
    cases hbreaks : first.breaksLine with
    | true =>
      have hfirst : lineBreak size (first :: trivia) = first.start := by
        simp [lineBreak, hbreaks]
      cases pending with
      | true => simp [hfirst, ih h.2]
      | false => simp [ih h.2]
    | false =>
      have hrest : lineBreak size (first :: trivia) = lineBreak size trivia := by
        simp [lineBreak, hbreaks]
      simp [hrest, ih h.2]

/-- What is read before a significant token does not depend on what follows it. -/
theorem exists_significant_append (size : Nat) (pending : Bool) {before : List Token}
    (hbefore : ∀ a ∈ before, a.text ≠ []) {token : Token} (htoken : token.kind.isTrivia = false) :
    ∃ left, left.filter (fun a => !a.isLineEnd) = before.filter (fun a => !a.kind.isTrivia) ∧
      ∀ tail, significant size pending (before ++ token :: tail) =
        left ++ token :: significant size token.kind.endsStatement tail := by
  -- whether a semicolon is pending is all that is handed on from token to token
  induction before generalizing pending with
  | nil =>
    refine ⟨[], rfl, fun tail => ?_⟩
    rw [List.nil_append, significant, if_neg (by simp [htoken]), List.nil_append]
  | cons first before ih =>
    rw [List.forall_mem_cons] at hbefore
    rw [List.filter_cons]
    simp only [List.cons_append, significant]
    cases htrivia : first.kind.isTrivia with
    | true =>
      by_cases hbreak : (pending && first.breaksLine) = true
      · obtain ⟨left, hleft, hrun⟩ := ih false hbefore.2
        refine ⟨lineEnd first.start :: left, ?_, fun tail => ?_⟩
        · rw [List.filter_cons_of_neg (by simp), hleft]
          rfl
        · rw [if_pos rfl, if_pos hbreak, hrun, List.cons_append]
      · obtain ⟨left, hleft, hrun⟩ := ih pending hbefore.2
        refine ⟨left, hleft, fun tail => ?_⟩
        rw [if_pos rfl, if_neg hbreak, hrun]
    | false =>
      obtain ⟨left, hleft, hrun⟩ := ih first.kind.endsStatement hbefore.2
      refine ⟨first :: left, ?_, fun tail => ?_⟩
      · rw [List.filter_cons_of_pos (by simp [isLineEnd_of_ne_nil hbefore.1]), hleft]
        rfl
      · rw [if_neg (by simp), hrun, List.cons_append]

/-- Where a significant token or nothing follows, it is read next unless a line end is pending at
the end of the text. -/
theorem head?_significant (hrest : ∀ next ∈ rest.head?, next.kind.isTrivia = false)
    (hpending : pending = true → rest ≠ []) :
    (significant size pending rest).head? = some (rest.headD (endOfFile size)) := by
  cases rest with
  | nil =>
    cases pending with
    | true => simp at hpending
    | false => rfl
  | cons next rest =>
    have hnext : next.kind.isTrivia = false := hrest next rfl
    rw [significant, if_neg (by simp [hnext])]
    rfl

/-- **What follows a significant token** in the stream, up to the next one. -/
theorem exists_between (size : Nat) (token : Token)
    (htrivia : ∀ a ∈ trivia, a.kind.isTrivia = true)
    (hrest : ∀ next ∈ rest.head?, next.kind.isTrivia = false) :
    ∃ right, right.head? = some (rest.headD (endOfFile size)) ∧
      significant size token.kind.endsStatement (trivia ++ rest) =
        (if token.kind.endsStatement = true ∧ (trivia.any breaksLine = true ∨ rest = []) then
          [lineEnd (lineBreak size trivia)] else []) ++ right := by
  rw [significant_append htrivia]
  cases hends : token.kind.endsStatement with
  | false =>
    exact ⟨significant size false rest, head?_significant hrest (by simp), by simp⟩
  | true =>
    cases hbreaks : trivia.any breaksLine with
    | true => exact ⟨significant size false rest, head?_significant hrest (by simp), by simp⟩
    | false =>
      cases rest with
      | nil =>
        -- no line has broken, so the semicolon stands at the end of the text
        have hnone : trivia.find? breaksLine = none := by
          simpa [List.find?_eq_none, List.any_eq_false] using hbreaks
        exact ⟨[endOfFile size], rfl, by simp [significant, lineBreak, hnone]⟩
      | cons next rest =>
        exact ⟨significant size true (next :: rest), head?_significant hrest (by simp), by simp⟩

end Token

namespace TokenStream

open Token

/-- **Automatic semicolons.**  Without its semicolons that have no characters, the stream of a text
is its significant tokens and the end of the text; the comments are those of the text; nothing
stands before the first significant token.  Behind a significant token, up to the next one or the
end of the text, there is one such semicolon if the token can end a statement and a line breaks, or
the text ends, in between; it stands where the line breaks first.  Otherwise there is none. -/
theorem ofText_semicolons (t : Text) :
    (ofText t).tokens.filter (fun a => !a.isLineEnd) =
      (Token.ofText t).filter (fun a => !a.kind.isTrivia) ++ [endOfFile t.size] ∧
    (ofText t).comments =
      (Token.ofText t).filter (fun a => a.kind = .lineComment ∨ a.kind = .blockComment) ∧
    (∀ trivia rest, Token.ofText t = trivia ++ rest → (∀ a ∈ trivia, a.kind.isTrivia = true) →
      (∀ next ∈ rest.head?, next.kind.isTrivia = false) →
      (ofText t).tokens.head? = some (rest.headD (endOfFile t.size))) ∧
    ∀ before token trivia rest, Token.ofText t = before ++ token :: (trivia ++ rest) →
      token.kind.isTrivia = false → (∀ a ∈ trivia, a.kind.isTrivia = true) →
      (∀ next ∈ rest.head?, next.kind.isTrivia = false) →
      ∃ left right, (ofText t).tokens = left ++ token ::
          ((if token.kind.endsStatement = true ∧ (trivia.any breaksLine = true ∨ rest = []) then
            [lineEnd (lineBreak t.size trivia)] else []) ++ right) ∧
        left.filter (fun a => !a.isLineEnd) = before.filter (fun a => !a.kind.isTrivia) ∧
        right.head? = some (rest.headD (endOfFile t.size)) := by
  refine ⟨filter_not_isLineEnd fun a => ne_nil_of_mem_ofText, ?_, ?_, ?_⟩
  · refine List.filter_congr fun a _ => ?_
    cases a.kind <;> simp [Kind.isComment]
  · intro trivia rest htokens htrivia hrest
    rw [ofText, htokens, significant_append htrivia, if_neg (by simp)]
    exact head?_significant hrest (by simp)
  · intro before token trivia rest htokens htoken htrivia hrest
    have hbefore : ∀ a ∈ before, a.text ≠ [] := fun a ha =>
      ne_nil_of_mem_ofText (t := t) (by rw [htokens]; exact List.mem_append_left _ ha)
    obtain ⟨left, hleft, hrun⟩ := exists_significant_append t.size false hbefore htoken
    obtain ⟨right, hright, hbetween⟩ := exists_between t.size token htrivia hrest
    refine ⟨left, right, ?_, hleft, hright⟩
    rw [ofText, htokens, hrun, hbetween]

/-- A comment over two lines ends the statement before it. -/
theorem ofText_semicolons_comment :
    ∃ left right, (ofText "x /*a\nb*/ y".toList).tokens =
        left ++ ⟨.name, 0, ['x']⟩ :: ([lineEnd 2] ++ right) ∧
      left.filter (fun a => !a.isLineEnd) = [] ∧ right.head? = some ⟨.name, 10, ['y']⟩ :=
  (ofText_semicolons "x /*a\nb*/ y".toList).2.2.2 [] ⟨.name, 0, ['x']⟩
    [⟨.whitespace, 1, [' ']⟩, ⟨.blockComment, 2, "/*a\nb*/".toList⟩, ⟨.whitespace, 9, [' ']⟩]
    [⟨.name, 10, ['y']⟩] (by decide +kernel) (by decide) (by decide) (by decide)

end TokenStream

end GoTree
