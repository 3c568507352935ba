import GoTree.Proofs.Mapping.Placed

/-!
# What an expected token guarantees

A token is expected at an offset under its stored text, and raw strings and comments are stored
without their carriage returns.  In a text with carriage returns the end of the token is therefore
found by counting bytes, and if that moves the end, the bytes found are taken as they are: nothing of
the stored text but its size is compared with them.

This has two sides.  A token whose stored text lacks exactly its carriage returns is found over its
own bytes.  A quoted literal is stored with its carriage returns, so the count runs past its end; and
any text of the right size is taken for a token whose end has moved.

## Main definitions

* `Token.overrun`: what the leaf of a token takes from the text behind the token

## Main results

* `Mapping.stretch_eq_some`: what the counting of bytes finds
* `Mapping.stretch_append_add`: how it goes on behind a token
* `expect_token_stop`: where the leaves of names, literals and comments stop
* `expect_sound`: what the leaf of an expected token has to do with the expected text
-/

namespace GoTree

/-- A text has the bytes of its stored form and one for each carriage return. -/
theorem Text.size_eq_size_withoutReturns_add (x : Text) :
    x.size = x.withoutReturns.size + x.count '\r' := by
  induction x with
  | nil => rfl
  | cons c x ih =>
    by_cases hc : c = '\r'
    · subst hc
      have hone : '\r'.utf8Size = 1 := rfl
      rw [withoutReturns_return, size_cons, List.count_cons_self, hone]
      omega
    · rw [withoutReturns_cons hc, size_cons, size_cons, List.count_cons_of_ne hc]
      omega

namespace Mapping

/-! ### Counting bytes -/

/-- **What the counting finds:** a front of the text with as many bytes other than carriage returns
as were asked for, or the whole text if it has fewer. -/
theorem stretch_eq_some {t front : Text} {n : Nat} (h : stretch t n = some front) :
    ∃ rest, t = front ++ rest ∧
      (front.withoutReturns.size = n ∨ rest = [] ∧ front.withoutReturns.size < n) := by
  induction t generalizing n front with
  | nil =>
    cases n with
    | zero =>
      obtain rfl : [] = front := by simpa [stretch] using h
      exact ⟨[], rfl, .inl rfl⟩
    | succ n =>
      obtain rfl : [] = front := by simpa [stretch] using h
      exact ⟨[], rfl, .inr ⟨rfl, Nat.succ_pos n⟩⟩
  | cons c t ih =>
    cases n with
    | zero =>
      obtain rfl : [] = front := by simpa [stretch] using h
      exact ⟨c :: t, rfl, .inl rfl⟩
    | succ n =>
      rw [stretch] at h
      split at h
      · rename_i hc
        subst hc
        obtain ⟨front, hfront, rfl⟩ := Option.map_eq_some_iff.1 h
        obtain ⟨rest, rfl, hsize⟩ := ih hfront
        refine ⟨rest, rfl, ?_⟩
        rwa [Text.withoutReturns_return]
      · rename_i hc
        -- a character is taken whole or not at all
        split at h
        · rename_i hle
          obtain ⟨front, hfront, rfl⟩ := Option.map_eq_some_iff.1 h
          obtain ⟨rest, rfl, hsize⟩ := ih hfront
          refine ⟨rest, rfl, ?_⟩
          rw [Text.withoutReturns_cons hc, Text.size_cons]
          rcases hsize with hfull | ⟨hend, hshort⟩
          · exact .inl (by omega)
          · exact .inr ⟨hend, by omega⟩
        · simp at h

/-- **Counting beyond a text:** its own carriage returns are passed over, and what is left of the
count goes to what follows. -/
theorem stretch_append_add (x y : Text) {n : Nat} (hn : 0 < n) :
    stretch (x ++ y) (x.withoutReturns.size + n) = (stretch y n).map (x ++ ·) := by
  induction x with
  | nil => simp [Text.withoutReturns]
  | cons c x ih =>
    by_cases hc : c = '\r'
    · subst hc
      -- something is left to count, so the carriage return is passed over
      obtain ⟨k, hk⟩ : ∃ k, (Text.withoutReturns x).size + n = k + 1 :=
        Nat.exists_eq_add_one.2 (by omega)
      rw [Text.withoutReturns_return, List.cons_append, hk, stretch, if_pos rfl, ← hk, ih,
        Option.map_map]
      rfl
    · have hpos := c.utf8Size_pos
      obtain ⟨k, hk⟩ : ∃ k, c.utf8Size + (Text.withoutReturns x).size + n = k + 1 :=
        Nat.exists_eq_add_one.2 (by omega)
      have hrest : k + 1 - c.utf8Size = (Text.withoutReturns x).size + n := by omega
      rw [Text.withoutReturns_cons hc, Text.size_cons, List.cons_append, hk, stretch, if_neg hc,
        if_pos (by omega), hrest, ih, Option.map_map]
      rfl

/-- Counting at least one byte takes a character, if there is one. -/
theorem stretch_ne_nil {c : Char} {t : Text} {n : Nat} (hn : 0 < n) :
    stretch (c :: t) n ≠ some [] := by
  obtain ⟨n, rfl⟩ := Nat.exists_eq_add_one.2 hn
  rw [stretch]
  split
  · simp
  · split <;> simp

variable {m : Mapping} {pos : Offset} {expected : String}

/-- **The two ways a token ends:** where its stored text does, or after the bytes that were
counted. -/
theorem tokenEnd_cases (m : Mapping) (pos : Offset) (expected : String) :
    m.tokenEnd pos expected = (pos + storedSize expected, expected) ∨
      '\r' ∈ m.text ∧ ∃ before rest front, m.text = before ++ rest ∧ before.size = pos ∧
        stretch rest (storedSize expected) = some front ∧ front.size ≠ storedSize expected ∧
        m.tokenEnd pos expected = (pos + front.size, String.ofList front) := by
  unfold tokenEnd
  split
  · rename_i hreturn
    split
    · rename_i front hfront
      obtain ⟨⟨before, rest⟩, hsplit, hstretch⟩ := Option.bind_eq_some_iff.1 hfront
      obtain ⟨htext, hsize⟩ := Text.splitAt?_eq_some_iff.1 hsplit
      dsimp only
      split
      · exact .inl rfl
      · rename_i hmoved
        refine .inr ⟨by simpa using hreturn, before, rest, front, htext, hsize, hstretch, ?_, rfl⟩
        intro heq
        exact hmoved (by rw [heq])
    · exact .inl rfl
  · exact .inl rfl

/-- **A token whose end has moved** is compared with nothing but itself: another expected text of the
same size gives the same end and the same bytes. -/
theorem tokenEnd_congr {other : String} (hsize : storedSize other = storedSize expected)
    (hmoved : (m.tokenEnd pos expected).1 ≠ pos + storedSize expected) :
    m.tokenEnd pos other = m.tokenEnd pos expected := by
  rcases tokenEnd_cases m pos expected with
    hsame | ⟨hreturn, before, rest, front, htext, rfl, hstretch, hne, hend⟩
  · rw [hsame] at hmoved
    exact absurd rfl hmoved
  · have hcount : m.text.contains '\r' = true := by simpa using hreturn
    have hne' : ¬ (before.size + front.size = before.size + storedSize expected) := by omega
    rw [hend, tokenEnd, if_pos hcount, hsize, htext, Text.splitAt?_append, Option.bind_some]
    simp only [hstretch, if_neg hne']

end Mapping

/-! ### Expected texts -/

open Mapping in
/-- **What the leaf of an expected token has to do with the expected text.**  It starts where the
token is expected and holds the bytes it spans.  If it stops where the expected text does, it is that
text.  Otherwise the text of the source has a carriage return, and only a size was checked: the leaf
has as many bytes other than carriage returns as the expected text has bytes, or it stops at the end
of the source with fewer, and any expected text of that size gives the same leaf. -/
theorem expect_sound (m : Mapping) (tags : List Tag) (pos : Offset) (expected label : String)
    (node : Node) (h : m.expect tags pos expected label = .ok (some node)) :
    node.start = pos ∧ m.text.slice? node.start node.stop = some node.value.toList ∧
      (node.stop = pos + storedSize expected → node.value = expected) ∧
      (node.stop ≠ pos + storedSize expected →
        '\r' ∈ m.text ∧
        (Text.size (Text.withoutReturns node.value.toList) = storedSize expected ∨
          node.stop = m.text.size ∧
            Text.size (Text.withoutReturns node.value.toList) < storedSize expected) ∧
        ∀ other, storedSize other = storedSize expected →
          m.expect tags pos other label = .ok (some node)) := by
  obtain ⟨hleaf, hvalue⟩ := expect_eq_ok_some h
  have hslice := (isSlice_of_leafAt hleaf).slice?
  obtain ⟨value, p, -, -, -, hnode⟩ := leafAt_eq_ok_some hleaf
  have hstart : node.start = pos := by rw [hnode]; rfl
  have hstop : node.stop = (m.tokenEnd pos expected).1 := by rw [hnode]; rfl
  refine ⟨hstart, hslice, ?_, ?_⟩
  · -- the bytes are compared with the expected text only if its end has not moved
    intro hsame
    rcases tokenEnd_cases m pos expected with
      hend | ⟨-, before, rest, front, -, -, -, hne, hend⟩
    · rw [hvalue, hend]
    · rw [hstop, hend] at hsame
      exact absurd (Nat.add_left_cancel hsame) hne
  · intro hmoved
    have hother : ∀ other, storedSize other = storedSize expected →
        m.expect tags pos other label = .ok (some node) := by
      intro other hsize
      rw [hstop] at hmoved
      rw [expect, tokenEnd_congr hsize hmoved]
      exact h
    rcases tokenEnd_cases m pos expected with
      hend | ⟨hreturn, before, rest, front, htext, hpos, hstretch, -, hend⟩
    · rw [hstop, hend] at hmoved
      exact absurd rfl hmoved
    · refine ⟨hreturn, ?_, hother⟩
      obtain ⟨after, hrest, hfound⟩ := stretch_eq_some hstretch
      rw [hvalue, hend, String.toList_ofList]
      rcases hfound with hfull | ⟨rfl, hshort⟩
      · exact .inl hfull
      · refine .inr ⟨?_, hshort⟩
        rw [hstop, hend, htext, hrest, Text.size_append, hpos, List.append_nil]

/-- A raw string with a carriage return is found by its stored text, and by any other text of that
size. -/
theorem expect_sound_raw :
    ∃ node, Mapping.expect ⟨⟨"p.go", "\x60a\r\nb\x60\r\n".toList⟩, .strict⟩ [] 0 "\x60a\nb\x60" "" =
        .ok (some node) ∧
      node.stop ≠ 0 + storedSize "\x60a\nb\x60" ∧ node.start = 0 ∧
      ∀ other, storedSize other = storedSize "\x60a\nb\x60" →
        Mapping.expect ⟨⟨"p.go", "\x60a\r\nb\x60\r\n".toList⟩, .strict⟩ [] 0 other "" =
          .ok (some node) := by
  obtain ⟨node, hmade, hstop⟩ :
      ∃ node, Mapping.expect ⟨⟨"p.go", "\x60a\r\nb\x60\r\n".toList⟩, .strict⟩ [] 0 "\x60a\nb\x60" "" =
          .ok node ∧ node.any (fun node => node.stop = 6) = true := by
    refine exists_ok_and_of_any ?_
    decide +kernel
  obtain ⟨node, rfl, hstop⟩ := (Option.any_eq_true _ _).1 hstop
  have hmoved : node.stop ≠ 0 + storedSize "\x60a\nb\x60" := by
    rw [of_decide_eq_true hstop]
    decide
  obtain ⟨hstart, -, -, hsize⟩ := expect_sound _ _ _ _ _ node hmade
  exact ⟨node, hmade, hmoved, hstart, (hsize hmoved).2.2⟩

/-- **A name that is not in the text is accepted:** the text has a carriage return behind the place.
So is a name that would reach past the end of the text. -/
theorem expect_clause_mismatch :
    (∃ node, Mapping.expect ⟨⟨"p.go", "package p\r\n".toList⟩, .strict⟩ [.identifier] 8 "xy" "" =
        .ok (some node) ∧
      Text.withoutReturns node.value.toList ≠ Text.withoutReturns "xy".toList) ∧
    ∃ node, Mapping.expect ⟨⟨"p.go", "package p\r\n".toList⟩, .strict⟩ [.identifier] 8 "wxyz" "" =
        .ok (some node) ∧
      Text.size "package p\r\n".toList < 8 + storedSize "wxyz" := by
  constructor
  · obtain ⟨node, hmade, hvalue⟩ :
        ∃ node, Mapping.expect ⟨⟨"p.go", "package p\r\n".toList⟩, .strict⟩ [.identifier] 8 "xy" "" =
            .ok node ∧
          node.any (fun node =>
            Text.withoutReturns node.value.toList ≠ Text.withoutReturns "xy".toList) = true := by
      refine exists_ok_and_of_any ?_
      decide +kernel
    obtain ⟨node, rfl, hvalue⟩ := (Option.any_eq_true _ _).1 hvalue
    exact ⟨node, hmade, of_decide_eq_true hvalue⟩
  · obtain ⟨node, hmade, hsome⟩ :
        ∃ node, Mapping.expect ⟨⟨"p.go", "package p\r\n".toList⟩, .strict⟩ [.identifier] 8 "wxyz" "" =
            .ok node ∧ node.isSome = true := by
      refine exists_ok_and_of_any ?_
      decide +kernel
    obtain ⟨node, rfl⟩ := Option.isSome_iff_exists.1 hsome
    exact ⟨node, hmade, by decide +kernel⟩

/-! ### Names, literals and comments -/

/-- **What the leaf of a literal takes from the text behind it.**  A raw string is stored without its
carriage returns.  Any other literal is stored with them, and for each of them the counting of bytes
goes one byte too far, unless it stops inside a character. -/
def Token.overrun (token : Token) (t : Text) : Text :=
  if token.text.head? = some '\x60' then []
  else
    ((t.splitAt? token.stop).bind fun parts =>
      Mapping.stretch parts.2 (token.text.count '\r')).getD []

/-- A literal overruns unless it is a raw string, or has no carriage return, or nothing follows it,
or the counting stops inside a character. -/
theorem Token.overrun_eq_nil_iff {t : Text} {token : Token}
    (h : t.slice? token.start token.stop = some token.text) :
    token.overrun t = [] ↔
      token.text.head? = some '\x60' ∨ '\r' ∉ token.text ∨ token.stop = t.size ∨
        ((t.splitAt? token.stop).bind fun parts =>
          Mapping.stretch parts.2 (token.text.count '\r')) = none := by
  obtain ⟨before, rest, rfl, hstart, hstop⟩ := Text.slice?_eq_some_iff.1 h
  have hsplit : Text.splitAt? (before ++ token.text ++ rest) token.stop =
      some (before ++ token.text, rest) := by
    rw [← hstop, ← hstart, ← Text.size_append, Text.splitAt?_append]
  have hsize : token.stop = Text.size (before ++ token.text ++ rest) ↔ rest = [] := by
    rw [Text.size_append, Text.size_append, hstart, hstop, ← Text.size_eq_zero]
    omega
  rw [overrun, hsplit, Option.bind_some, hsize]
  by_cases hraw : token.text.head? = some '\x60'
  · simp [hraw]
  by_cases hreturn : '\r' ∈ token.text
  · -- a quoted literal with a carriage return: the count goes on behind it
    have hcount : 0 < token.text.count '\r' := List.count_pos_iff.2 hreturn
    rw [if_neg hraw]
    simp only [hraw, hreturn, not_true_eq_false, false_or]
    cases rest with
    | nil =>
      obtain ⟨n, hn⟩ := Nat.exists_eq_add_one.2 hcount
      simp [hn, Mapping.stretch]
    | cons c rest =>
      cases hfound : Mapping.stretch (c :: rest) (token.text.count '\r') with
      | none => simp
      | some front =>
        have hne : front ≠ [] := by
          rintro rfl
          exact Mapping.stretch_ne_nil hcount hfound
        simpa using hne
  · simp [hraw, hreturn, List.count_eq_zero_of_not_mem hreturn, Mapping.stretch]

namespace Mapping

section

variable {m : Mapping} {before x rest : Text} (htext : m.text = before ++ x ++ rest)
  (hreturn : '\r' ∈ x)

include htext hreturn

/-- **A token stored with its carriage returns** ends behind what the counting goes too far. -/
theorem tokenEnd_of_mem :
    m.tokenEnd before.size (String.ofList x) =
      (before.size + Text.size (x ++ (stretch rest (x.count '\r')).getD []),
        String.ofList (x ++ (stretch rest (x.count '\r')).getD [])) := by
  have hcount : 0 < x.count '\r' := List.count_pos_iff.2 hreturn
  have hsize : storedSize (String.ofList x) = x.size := by simp [storedSize]
  have hcontains : m.text.contains '\r' = true := by
    rw [htext]
    simp [hreturn]
  have hfound : ((m.text.splitAt? before.size).bind fun parts => stretch parts.2 x.size) =
      (stretch rest (x.count '\r')).map (x ++ ·) := by
    rw [htext, List.append_assoc, Text.splitAt?_append, Option.bind_some,
      Text.size_eq_size_withoutReturns_add x]
    exact stretch_append_add x rest hcount
  rw [tokenEnd, if_pos hcontains, hsize, hfound]
  cases stretch rest (x.count '\r') with
  | none => simp
  | some front =>
    dsimp only [Option.map_some, Option.getD_some]
    split
    · rename_i heq
      -- nothing follows the token, so the count stops at its end
      obtain rfl : front = [] := by
        have hsame := Nat.add_left_cancel heq
        rw [Text.size_append] at hsame
        rw [← Text.size_eq_zero]
        omega
      simp
    · rfl

theorem expect_of_mem (tags : List Tag) (label : String) :
    ∃ node, m.expect tags before.size (String.ofList x) label = .ok (some node) ∧
      node.start = before.size ∧
      node.stop = before.size + Text.size (x ++ (stretch rest (x.count '\r')).getD []) := by
  obtain ⟨after, hafter⟩ : ∃ after, rest = (stretch rest (x.count '\r')).getD [] ++ after := by
    cases hfound : stretch rest (x.count '\r') with
    | none => exact ⟨rest, rfl⟩
    | some front =>
      obtain ⟨after, hafter, -⟩ := stretch_eq_some hfound
      exact ⟨after, hafter⟩
  have hend := tokenEnd_of_mem htext hreturn
  generalize (stretch rest (x.count '\r')).getD [] = front at hafter hend ⊢
  have hslice : m.text.slice? before.size (before.size + Text.size (x ++ front)) =
      some (x ++ front) :=
    Text.slice?_eq_some_iff.2 ⟨before, after, by rw [htext, hafter]; simp, rfl, rfl⟩
  have hne : x ++ front ≠ [] := by simp [List.ne_nil_of_mem hreturn]
  obtain ⟨p, -, hleaf⟩ := leafAt_of_slice? tags label hslice (.inl hne)
  refine ⟨.leaf tags label ⟨String.ofList (x ++ front), p.line, p.column⟩ before.size
    (before.size + Text.size (x ++ front)), ?_, rfl, rfl⟩
  rw [expect, hend]
  dsimp only
  rw [hleaf]
  simp [Node.value, Node.leaf]

end

/-- **A literal of the text is found with its overrun.** -/
theorem exists_literalLeaf {m : Mapping} {token : Token} {l : Literal}
    (htoken : token ∈ Token.body m.text) (hkind : token.kind = .literal l) (tags : List Tag)
    (label : String) :
    ∃ node, m.expect tags token.start (Parser.storedLiteral token.text) label = .ok (some node) ∧
      node.start = token.start ∧ node.stop = token.stop + Text.size (token.overrun m.text) := by
  have hslice := (Token.tiles_body m.text).slice?_of_mem htoken
  have hproper : (token.text.head? = some '\x60' ∧ token.text.getLast? = some '\x60') ∨
      token.text.head? ≠ some '\x60' := by
    have hproper := (Token.proper_of_mem_body htoken).2
    simp only [Token.Proper, Token.Lexeme.Proper, hkind] at hproper
    exact hproper.imp_right And.left
  by_cases hplain : (token.text.head? = some '\x60' ∧ token.text.getLast? = some '\x60') ∨
      '\r' ∉ token.text
  · obtain ⟨hstored, hlast⟩ := storedLiteral_eq hplain
    have hnone : token.overrun m.text = [] :=
      (Token.overrun_eq_nil_iff hslice).2 (hplain.imp And.left .inl)
    rw [hstored, hnone]
    exact expect_of_mem_body htoken hlast tags label
  · -- a quoted literal, stored as it stands in the text
    rw [not_or, not_not] at hplain
    have hhead := hproper.resolve_left hplain.1
    obtain ⟨before, rest, htext, hstart, hstop⟩ := Text.slice?_eq_some_iff.1 hslice
    have hsplit : m.text.splitAt? token.stop = some (before ++ token.text, rest) := by
      rw [htext, ← hstop, ← hstart, ← Text.size_append, Text.splitAt?_append]
    have hmade := expect_of_mem htext hplain.2 tags label
    rw [hstart, Text.size_append, ← Nat.add_assoc, hstop] at hmade
    rw [Token.overrun, if_neg hhead, hsplit, Option.bind_some, Parser.storedLiteral, if_neg hhead]
    exact hmade

end Mapping

open Mapping in
/-- **Where the leaves of names, literals and comments stop.**  Expected under the text the grammar
stores for it, every name of a text is found over its bytes.  Every literal is found from its start,
and its leaf stops behind it by its overrun: that is nothing for a raw string and for a literal
without a carriage return, and otherwise only at the end of the text or where the counting stops
inside a character.  Every comment is found over its bytes, less the carriage returns at the end of a
line comment. -/
theorem expect_token_stop (m : Mapping) (tags : List Tag) (label : String) :
    (∀ token ∈ (TokenStream.ofText m.text).tokens, token.kind = .name →
      ∃ node, m.expect tags token.start (String.ofList token.text) label = .ok (some node) ∧
        node.start = token.start ∧ node.stop = token.stop) ∧
    (∀ token ∈ (TokenStream.ofText m.text).tokens, ∀ l, token.kind = .literal l →
      (∃ node, m.expect tags token.start (Parser.storedLiteral token.text) label =
          .ok (some node) ∧
        node.start = token.start ∧ node.stop = token.stop + Text.size (token.overrun m.text)) ∧
      (token.overrun m.text = [] ↔
        token.text.head? = some '\x60' ∨ '\r' ∉ token.text ∨ token.stop = m.text.size ∨
          ((m.text.splitAt? token.stop).bind fun parts =>
            stretch parts.2 (token.text.count '\r')) = none)) ∧
    ∀ token ∈ (TokenStream.ofText m.text).comments,
      ∃ node, m.expect (commentTags (.ofToken token)) (Comment.ofToken token).slash
          (Comment.ofToken token).text "" = .ok (some node) ∧
        node.start = token.start ∧ node.stop = token.commentStop := by
  have hbody : ∀ token ∈ (TokenStream.ofText m.text).tokens,
      (token.kind = .name ∨ ∃ l, token.kind = .literal l) → token ∈ Token.body m.text := by
    intro token htoken hkind
    rcases TokenStream.mem_tokens htoken with ⟨hmem, -⟩ | ⟨hsemicolon, -⟩ | rfl
    · exact hmem
    · simp [hsemicolon] at hkind
    · simp [Token.endOfFile] at hkind
  refine ⟨?_, ?_, ?_⟩
  · intro token htoken hname
    have hmem := hbody token htoken (.inl hname)
    have hfree : '\r' ∉ token.text := by
      simpa [Token.Proper, Token.Lexeme.Proper, hname] using (Token.proper_of_mem_body hmem).2
    obtain ⟨hstored, hlast⟩ := Text.stored_of_not_mem hfree
    rw [hstored]
    exact expect_of_mem_body hmem hlast tags label
  · intro token htoken l hliteral
    have hmem := hbody token htoken (.inr ⟨l, hliteral⟩)
    exact ⟨exists_literalLeaf hmem hliteral tags label,
      Token.overrun_eq_nil_iff ((Token.tiles_body m.text).slice?_of_mem hmem)⟩
  · intro token htoken
    obtain ⟨hmem, hkind⟩ := mem_comments htoken
    obtain ⟨node, hmade, hnode⟩ := exists_commentLeaf hmem hkind
    exact ⟨node, hmade, hnode.start, hnode.stop⟩

/-- A raw string with a carriage return, a string with one at the end of the text, and a comment at
the end of a line. -/
theorem expect_token_stop_mixed :
    (∃ token ∈ (TokenStream.ofText "\x60a\r\x60 //c\r\n\"\r\"".toList).tokens,
      token.kind = .literal .string ∧ token.text = "\"\r\"".toList ∧
      ∃ node, Mapping.expect ⟨⟨"p.go", "\x60a\r\x60 //c\r\n\"\r\"".toList⟩, .strict⟩ [] token.start
          (Parser.storedLiteral token.text) "" = .ok (some node) ∧
        node.start = token.start ∧ node.stop = token.stop) ∧
    ∃ token ∈ (TokenStream.ofText "\x60a\r\x60 //c\r\n\"\r\"".toList).comments,
      token.text = "//c\r".toList ∧ token.commentStop = 8 ∧
      ∃ node, Mapping.expect ⟨⟨"p.go", "\x60a\r\x60 //c\r\n\"\r\"".toList⟩, .strict⟩
          (Mapping.commentTags (.ofToken token)) (Comment.ofToken token).slash
          (Comment.ofToken token).text "" = .ok (some node) ∧
        node.start = token.start ∧ node.stop = token.commentStop := by
  obtain ⟨-, hliterals, hcomments⟩ :=
    expect_token_stop ⟨⟨"p.go", "\x60a\r\x60 //c\r\n\"\r\"".toList⟩, .strict⟩ [] ""
  constructor
  · obtain ⟨token, htoken, hdata⟩ :
        ∃ token ∈ (TokenStream.ofText "\x60a\r\x60 //c\r\n\"\r\"".toList).tokens,
          decide (token.kind = .literal .string ∧ token.text = "\"\r\"".toList ∧
            token.stop = Text.size "\x60a\r\x60 //c\r\n\"\r\"".toList) = true :=
      List.any_eq_true.1 (by decide +kernel)
    obtain ⟨hkind, htext, hstop⟩ := of_decide_eq_true hdata
    obtain ⟨⟨node, hmade, hstart, hnode⟩, hoverrun⟩ := hliterals token htoken .string hkind
    rw [hoverrun.2 (.inr (.inr (.inl hstop)))] at hnode
    exact ⟨token, htoken, hkind, htext, node, hmade, hstart, hnode⟩
  · obtain ⟨token, htoken, hdata⟩ :
        ∃ token ∈ (TokenStream.ofText "\x60a\r\x60 //c\r\n\"\r\"".toList).comments,
          decide (token.text = "//c\r".toList ∧ token.commentStop = 8) = true :=
      List.any_eq_true.1 (by decide +kernel)
    obtain ⟨htext, hstop⟩ := of_decide_eq_true hdata
    exact ⟨token, htoken, htext, hstop, hcomments token htoken⟩

/-- **A string with a carriage return is found with the line end behind it.** -/
theorem expect_quoted_overrun :
    ∃ token ∈ (TokenStream.ofText "package p\nvar s = \"a\rb\"\n".toList).tokens,
      token.kind = .literal .string ∧ (token.start, token.stop) = (18, 23) ∧
      ∃ node, Mapping.expect ⟨⟨"p.go", "package p\nvar s = \"a\rb\"\n".toList⟩, .strict⟩
          [.stringLiteral] token.start (Parser.storedLiteral token.text) "" = .ok (some node) ∧
        (node.start, node.stop) = (18, 24) := by
  obtain ⟨token, htoken, hdata⟩ :
      ∃ token ∈ (TokenStream.ofText "package p\nvar s = \"a\rb\"\n".toList).tokens,
        (decide (token.kind = .literal .string ∧ (token.start, token.stop) = (18, 23)) &&
          (Mapping.expect ⟨⟨"p.go", "package p\nvar s = \"a\rb\"\n".toList⟩, .strict⟩
            [.stringLiteral] token.start (Parser.storedLiteral token.text) "").toOption.any
              fun node => node.any fun node => (node.start, node.stop) = (18, 24)) = true :=
    List.any_eq_true.1 (by decide +kernel)
  rw [Bool.and_eq_true] at hdata
  obtain ⟨hkind, hspan⟩ := of_decide_eq_true hdata.1
  obtain ⟨node, hmade, hnode⟩ := exists_ok_and_of_any hdata.2
  obtain ⟨node, rfl, hnode⟩ := (Option.any_eq_true _ _).1 hnode
  exact ⟨token, htoken, hkind, hspan, node, hmade, of_decide_eq_true hnode⟩

end GoTree
