import GoTree.Proofs.Grammar.Account
import GoTree.Proofs.Grammar.Progress

/-!
# Where syntax errors point

A syntax error is about the next token, or about a construct that was read before.  Either way it
starts where a token of the text starts, and the text has the bytes it is about.  It stops where a
token stops with one exception.  The end of a construct is computed from the text under which its
last token is stored, and a raw string is stored without its carriage returns; so an error about a
construct that ends in such a string stops too early, perhaps inside a character.

## Main definitions

* `SyntaxError.Covers`: an error is about the bytes from one token to another

## Main results

* `covers_of_located`: errors about a construct
* `parse_error_covers`: where the error of a text points
* `parse_error_in_character`: an error that stops inside a character
-/

namespace GoTree

open GoTree.Parser

variable {t : Text} {e : SyntaxError} {first last : Token}

/-- **An error is about the bytes from one token of the text to another.**  It stops where the
second one does, unless it is about a construct and that token is a raw string with carriage
returns. -/
structure SyntaxError.Covers (t : Text) (e : SyntaxError) (first last : Token) : Prop where
  first_mem : first ∈ (TokenStream.ofText t).tokens
  last_mem : last ∈ (TokenStream.ofText t).tokens
  order : first = last ∨ first.stop ≤ last.start
  start_eq : e.start = first.start
  stop_eq : e.cause.isAboutConstruct = false ∨ ¬ last.HasRawReturn → e.stop = last.stop
  early : e.stop = last.stop ∨ last.HasRawReturn ∧ e.stop < last.stop ∧
    e.stop = last.start + last.text.withoutReturns.size
  le : e.start ≤ e.stop
  le_size : e.stop ≤ t.size
  /-- Only the end of the text and the end of a line have no bytes. -/
  empty : e.start = e.stop →
    first = .endOfFile t.size ∨ first.kind = .symbol .semicolon ∧ first.text = []
  boundary : t.IsBoundary e.start
  slice : e.stop = last.stop → ∃ x, t.slice? e.start e.stop = some x

/-- Of several tokens of a text, the first is the last one or stands before it. -/
theorem eq_or_stop_le {own : List Token} (hown : own.Pairwise fun a b => a.stop ≤ b.start)
    (hfirst : first ∈ own.head?) (hlast : last ∈ own.getLast?) :
    first = last ∨ first.stop ≤ last.start := by
  obtain ⟨rest, rfl⟩ := List.head?_eq_some_iff.1 hfirst
  rcases List.eq_nil_or_concat rest with rfl | ⟨middle, final, rfl⟩
  · exact .inl (by simpa using hlast)
  · obtain rfl : final = last := by simpa [List.getLast?_cons] using hlast
    exact .inr ((List.pairwise_cons.1 hown).1 final (by simp))

/-- **Errors about a token** of the text. -/
theorem covers_of_token (htoken : first ∈ (TokenStream.ofText t).tokens)
    (hstart : e.start = first.start) (hstop : e.stop = first.stop) : e.Covers t first first := by
  have hslice := TokenStream.slice?_of_mem_tokens htoken
  rw [← hstart, ← hstop] at hslice
  refine {
    first_mem := htoken
    last_mem := htoken
    order := .inl rfl
    start_eq := hstart
    stop_eq := fun _ => hstop
    early := .inl hstop
    le := Text.le_of_slice? hslice
    le_size := Text.le_size_of_slice? hslice
    empty := fun hempty => ?_
    boundary := (Text.isBoundary_of_slice? hslice).1
    slice := fun _ => ⟨_, hslice⟩ }
  rcases TokenStream.mem_tokens htoken with ⟨hbody, -⟩ | hline | hend
  · have hlt := Token.start_lt_stop_of_mem_body hbody
    omega
  · exact .inr hline
  · exact .inl hend

/-- **Errors about a construct:** the construct has bytes, but perhaps not up to the end of its last
token. -/
theorem covers_of_located (h : Located (TokenStream.ofText t).tokens e.start e.stop)
    (hcause : e.cause.isAboutConstruct = true) : ∃ first last, e.Covers t first last := by
  obtain ⟨own, hown, ⟨first, hfirst, hstart⟩, last, hlast, r, hr, hstop⟩ := h
  have hmem {token : Token} (htoken : token ∈ own) : token ∈ (TokenStream.ofText t).tokens :=
    hown.subset htoken
  have hfirst_mem := hmem (List.mem_of_mem_head? hfirst)
  have hlast_mem := hmem (List.mem_of_mem_getLast? hlast)
  have horder := eq_or_stop_le ((TokenStream.pairwise_tokens t).sublist hown.sublist) hfirst hlast
  have hboundary := Text.isBoundary_of_slice? (TokenStream.slice?_of_mem_tokens hfirst_mem)
  have hslice := TokenStream.slice?_of_mem_tokens hlast_mem
  -- the construct stops inside its last token, or where that does
  have hbody := (hr.mem_body hlast_mem).1
  have hproper := (Token.proper_of_mem_body hbody).2
  have hlt : e.start < e.stop := by
    rw [← hstart, ← hstop]
    refine Nat.lt_of_le_of_lt ?_ (hr.start_lt_stop hbody)
    rcases horder with rfl | hle
    · exact Nat.le_refl _
    · exact (Text.le_of_slice? (TokenStream.slice?_of_mem_tokens hfirst_mem)).trans hle
  have hle : e.stop ≤ last.stop := hstop ▸ hr.stop_le hproper
  refine ⟨first, last, {
    first_mem := hfirst_mem
    last_mem := hlast_mem
    order := horder
    start_eq := hstart.symm
    stop_eq := fun hplain => ?_
    early := ?_
    le := Nat.le_of_lt hlt
    le_size := hle.trans (Text.le_size_of_slice? hslice)
    empty := fun hempty => absurd hempty (Nat.ne_of_lt hlt)
    boundary := hstart ▸ hboundary.1
    slice := fun heq => ?_ }⟩
  · rcases hr.stop_eq hproper with ⟨-, heq⟩ | ⟨hraw, -⟩
    · exact hstop.symm.trans heq
    · rcases hplain with hother | hnot
      · simp [hcause] at hother
      · exact absurd hraw hnot
  · rw [← hstop]
    rcases hr.stop_eq hproper with ⟨-, heq⟩ | ⟨hraw, heq⟩
    · exact .inl heq
    · refine .inr ⟨hraw, ?_, heq⟩
      rw [heq]
      exact Nat.add_lt_add_left (Text.size_withoutReturns_lt hraw.mem) last.start
  · refine Text.exists_slice?_of_isBoundary (hstart ▸ hboundary.1) ?_ (Nat.le_of_lt hlt)
    exact heq ▸ (Text.isBoundary_of_slice? hslice).2

/-- **Where the error of a text points:** at the bytes from one of its tokens to another. -/
theorem parse_error_covers (h : parse t = .error e) : ∃ first last, e.Covers t first last := by
  obtain ⟨taken, htokens, hpoints⟩ := (Grammar.reads_file (Grammar.spelled_run _)).error e _
    (Prod.ext (file_eq_error_of_parse h) rfl)
  rw [List.nil_append] at hpoints
  -- the end of the text is never taken, so the next token is one of the text
  have hover := (steady_parse t).reaches.over (ParserState.over_ofText t)
  obtain ⟨next, rest, hnext⟩ := List.exists_cons_of_ne_nil hover.nonempty
  rcases hpoints with hexhausted | ⟨hstart, hstop⟩ | ⟨hcause, hlocated⟩
  · exact absurd hexhausted (not_exhausted_of_parse h)
  · rw [current, hnext] at hstart hstop
    have hmem : next ∈ (TokenStream.ofText t).tokens := hover.suffix.subset (by simp [hnext])
    exact ⟨next, next, covers_of_token hmem hstart hstop⟩
  · refine covers_of_located ?_ hcause
    exact hlocated.mono (htokens ▸ List.prefix_append ..).isInfix

/-- A function that is named where it must be called. -/
theorem parse_error_covers_name :
    ∃ e, parse "package p\nfunc f() { go g }\n".toList = .error e ∧
      (e.start, e.stop) = (24, 25) ∧
        ∃ first last, e.Covers "package p\nfunc f() { go g }\n".toList first last := by
  obtain ⟨e, he, hrange⟩ : ∃ e, parse "package p\nfunc f() { go g }\n".toList = .error e ∧
      decide ((e.start, e.stop) = (24, 25)) = true := by
    refine exists_error_and_of_any ?_
    decide +kernel
  exact ⟨e, he, of_decide_eq_true hrange, parse_error_covers he⟩

/-- **An error that stops inside a character.**  The raw string in place of a call reaches from
offset 24 to 31; without its carriage returns it would stop at offset 29, inside its euro sign. -/
theorem parse_error_in_character :
    ∃ e, parse "package p\nfunc f() \x7b go \x60\r\r\u20ac\x60 \x7d\n".toList = .error e ∧
      (e.start, e.stop) = (24, 29) ∧
      ¬ Text.IsBoundary "package p\nfunc f() \x7b go \x60\r\r\u20ac\x60 \x7d\n".toList e.stop ∧
      ∀ token ∈ (TokenStream.ofText
          "package p\nfunc f() \x7b go \x60\r\r\u20ac\x60 \x7d\n".toList).tokens,
        token.stop ≠ e.stop ∧ (token.start = e.start → token.stop = 31) := by
  obtain ⟨e, he, hrange⟩ :
      ∃ e, parse "package p\nfunc f() \x7b go \x60\r\r\u20ac\x60 \x7d\n".toList = .error e ∧
        decide ((e.start, e.stop) = (24, 29)) = true := by
    refine exists_error_and_of_any ?_
    decide +kernel
  obtain ⟨hstart, hstop⟩ := Prod.mk.inj (of_decide_eq_true hrange)
  refine ⟨e, he, of_decide_eq_true hrange, ?_⟩
  rw [hstart, hstop]
  exact ⟨by decide +kernel, by decide +kernel⟩

end GoTree
