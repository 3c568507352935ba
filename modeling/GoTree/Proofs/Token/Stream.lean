import Mathlib.Data.List.Basic
import GoTree.Proofs.Token.Tokenizer
import GoTree.Token.Stream

/-!
# Tokens tile their text

Laid out one after the other, the lexemes of a text are slices of it that follow one another without
anything between them.  The grammar reads those that are neither blank nor a comment; what it reads
beside them has no characters.

## Main definitions

* `Tiles`: tokens that follow one another from one offset to another
* `Token.bodyStart`, `Token.body`: the tokens of a text after its byte order mark

## Main results

* `Token.tiles_body`, `Token.tiles_ofText`: these tokens tile the text, and so do all its tokens
* `TokenStream.tokens_eq`, `TokenStream.comments_eq`: the stream of a text, read off these tokens
* `Token.filter_significant`: the tokens with characters among those the grammar reads
* `Token.pairwise_significant`: the tokens the grammar reads follow one another
* `TokenStream.slice?_of_mem_tokens`: they are in the text
-/

namespace GoTree

/-! ### Tilings -/

/-- **Tokens that tile the bytes from `start` to `stop`:** each is a slice of the text and starts
where the one before it stops. -/
def Tiles (t : Text) : (start : Nat) → List Token → (stop : Nat) → Prop
  | start, [], stop => start = stop
  | start, token :: rest, stop =>
    token.start = start ∧ t.slice? token.start token.stop = some token.text ∧
      Tiles t token.stop rest stop

namespace Tiles

variable {t : Text} {start stop : Nat} {tokens : List Token}

theorem append_iff {more : List Token} :
    Tiles t start (tokens ++ more) stop ↔
      ∃ middle, Tiles t start tokens middle ∧ Tiles t middle more stop := by
  induction tokens generalizing start with
  | nil => simp [Tiles]
  | cons token tokens ih =>
    rw [List.cons_append, Tiles, ih]
    constructor
    · rintro ⟨hstart, hslice, middle, hfront, hback⟩
      exact ⟨middle, ⟨hstart, hslice, hfront⟩, hback⟩
    · rintro ⟨middle, ⟨hstart, hslice, hfront⟩, hback⟩
      exact ⟨hstart, hslice, middle, hfront, hback⟩

/-- A token of a tiling is a slice of the text. -/
theorem slice?_of_mem (h : Tiles t start tokens stop) {token : Token} (htoken : token ∈ tokens) :
    t.slice? token.start token.stop = some token.text := by
  induction tokens generalizing start with
  | nil => simp at htoken
  | cons first tokens ih =>
    rcases List.mem_cons.1 htoken with rfl | htoken
    · exact h.2.1
    · exact ih h.2.2 htoken

/-- The tiled stretch is made up of the texts of the tokens. -/
theorem slice? (h : Tiles t start tokens stop) (hstart : t.IsBoundary start) :
    t.slice? start stop = some (tokens.flatMap Token.text) := by
  induction tokens generalizing start with
  | nil =>
    obtain rfl : start = stop := h
    exact Text.slice?_self hstart
  | cons token tokens ih =>
    obtain ⟨rfl, hslice, hrest⟩ := h
    exact Text.slice?_append hslice (ih hrest (Text.isBoundary_of_slice? hslice).2)

theorem le (h : Tiles t start tokens stop) : start ≤ stop := by
  induction tokens generalizing start with
  | nil => exact Nat.le_of_eq h
  | cons token tokens ih =>
    obtain ⟨rfl, hslice, hrest⟩ := h
    exact (Text.le_of_slice? hslice).trans (ih hrest)

/-- Every token of a tiling lies in the tiled stretch. -/
theorem le_of_mem (h : Tiles t start tokens stop) {token : Token} (htoken : token ∈ tokens) :
    start ≤ token.start ∧ token.stop ≤ stop := by
  induction tokens generalizing start with
  | nil => simp at htoken
  | cons first tokens ih =>
    obtain ⟨rfl, hslice, hrest⟩ := h
    rcases List.mem_cons.1 htoken with rfl | htoken
    · exact ⟨Nat.le_refl _, hrest.le⟩
    · obtain ⟨hle, hle'⟩ := ih hrest htoken
      exact ⟨(Text.le_of_slice? hslice).trans hle, hle'⟩

/-- Of two tokens of a tiling, one stops before the other starts. -/
theorem pairwise (h : Tiles t start tokens stop) :
    tokens.Pairwise fun a b => a.stop ≤ b.start := by
  induction tokens generalizing start with
  | nil => exact .nil
  | cons first tokens ih =>
    obtain ⟨rfl, -, hrest⟩ := h
    exact .cons (fun token htoken => (hrest.le_of_mem htoken).1) (ih hrest)

/-- A token of a tiling that starts inside another one is that one. -/
theorem eq_of_start_lt (h : Tiles t start tokens stop)
    (hne : ∀ token ∈ tokens, token.start < token.stop) {a b : Token} (ha : a ∈ tokens)
    (hb : b ∈ tokens) (hle : a.start ≤ b.start) (hlt : b.start < a.stop) : a = b := by
  induction tokens generalizing start with
  | nil => simp at ha
  | cons first tokens ih =>
    obtain ⟨-, -, hrest⟩ := h
    rw [List.forall_mem_cons] at hne
    rw [List.mem_cons] at ha hb
    rcases ha with rfl | ha
    · rcases hb with rfl | hb
      · rfl
      · have hafter := (hrest.le_of_mem hb).1
        omega
    · rcases hb with rfl | hb
      · have hafter := (hrest.le_of_mem ha).1
        omega
      · exact ih hrest hne.2 ha hb

end Tiles

namespace Token

/-! ### All tokens of a text -/

/-- Lexemes laid out from where they stand tile their text. -/
theorem tiles_place {t a : Text} {lexemes : List Lexeme}
    (h : t = a ++ lexemes.flatMap Lexeme.text) : Tiles t a.size (place a.size lexemes) t.size := by
  induction lexemes generalizing a with
  | nil =>
    rw [List.flatMap_nil, List.append_nil] at h
    rw [place_nil, h]
    rfl
  | cons lexeme lexemes ih =>
    rw [List.flatMap_cons, ← List.append_assoc] at h
    have hslice : t.slice? a.size (a.size + lexeme.text.size) = some lexeme.text :=
      Text.slice?_eq_some_iff.2 ⟨a, lexemes.flatMap Lexeme.text, h, rfl, rfl⟩
    refine ⟨rfl, hslice, ?_⟩
    have hrest := ih h
    rwa [Text.size_append] at hrest

theorem exists_lexeme_of_mem_place {offset : Nat} {lexemes : List Lexeme} {token : Token}
    (h : token ∈ place offset lexemes) : ⟨token.kind, token.text⟩ ∈ lexemes := by
  induction lexemes generalizing offset with
  | nil => simp at h
  | cons lexeme lexemes ih =>
    rw [place_cons, List.mem_cons] at h
    rcases h with rfl | h
    · exact List.mem_cons_self ..
    · exact List.mem_cons_of_mem _ (ih h)

/-- A token whose characters are what its kind says. -/
def Proper (token : Token) : Prop :=
  Lexeme.Proper ⟨token.kind, token.text⟩

/-- Where a text starts after a byte order mark, if there is one. -/
def bodyStart (t : Text) : Nat :=
  if t.head? = some byteOrderMark then byteOrderMark.utf8Size else 0

/-- **The tokens of a text after its byte order mark.** -/
def body (t : Text) : List Token :=
  place (bodyStart t) (Lexeme.cutRest (if t.head? = some byteOrderMark then t.tail else t))

theorem tiles_body (t : Text) : Tiles t (bodyStart t) (body t) t.size := by
  unfold body bodyStart
  split
  · rename_i hmark
    obtain ⟨rest, rfl⟩ := List.head?_eq_some_iff.1 hmark
    have hsize : byteOrderMark.utf8Size = Text.size [byteOrderMark] := by simp
    rw [hsize, List.tail_cons]
    refine tiles_place ?_
    rw [(Lexeme.of_mem_cutRest rest).1]
    rfl
  · refine tiles_place (a := []) ?_
    rw [(Lexeme.of_mem_cutRest t).1]
    rfl

theorem isBoundary_bodyStart (t : Text) : t.IsBoundary (bodyStart t) := by
  unfold bodyStart
  split
  · rename_i hmark
    obtain ⟨rest, rfl⟩ := List.head?_eq_some_iff.1 hmark
    exact Text.isBoundary_of_append (a := [byteOrderMark]) rfl
  · exact Text.isBoundary_of_append (a := []) rfl

/-- Every one of these tokens has characters, and they are what its kind says. -/
theorem proper_of_mem_body {t : Text} {token : Token} (h : token ∈ body t) :
    token.text ≠ [] ∧ token.Proper :=
  (Lexeme.of_mem_cutRest _).2 _ (exists_lexeme_of_mem_place h)

theorem start_lt_stop_of_mem_body {t : Text} {token : Token} (h : token ∈ body t) :
    token.start < token.stop := by
  have hpos := Text.size_pos (proper_of_mem_body h).1
  unfold stop
  omega

/-- A token of a text that starts inside another one is that one. -/
theorem eq_of_mem_body {t : Text} {a b : Token} (ha : a ∈ body t) (hb : b ∈ body t)
    (hle : a.start ≤ b.start) (hlt : b.start < a.stop) : a = b :=
  (tiles_body t).eq_of_start_lt (fun _ => start_lt_stop_of_mem_body) ha hb hle hlt

/-- **Tokens are told apart by where they start.** -/
theorem eq_of_start_eq {t : Text} {a b : Token} (ha : a ∈ body t) (hb : b ∈ body t)
    (hstart : a.start = b.start) : a = b := by
  refine eq_of_mem_body ha hb (Nat.le_of_eq hstart) ?_
  rw [← hstart]
  exact start_lt_stop_of_mem_body ha

theorem kind_ne_endOfFile_of_mem_body {t : Text} {token : Token} (h : token ∈ body t) :
    token.kind ≠ .endOfFile := by
  intro hkind
  have hproper := (proper_of_mem_body h).2
  simp [Proper, Lexeme.Proper, hkind] at hproper

/-- The tokens of a text are those after its byte order mark, which counts as a blank. -/
theorem ofText_eq (t : Text) :
    ofText t = if t.head? = some byteOrderMark then ⟨.whitespace, 0, [byteOrderMark]⟩ :: body t
      else body t := by
  unfold body bodyStart
  rw [ofText_eq_place, Lexeme.cut_eq]
  split
  · simp
  · rfl

/-- A token of a text is its byte order mark or one after it. -/
theorem mem_ofText {t : Text} {token : Token} (h : token ∈ ofText t) :
    token = ⟨.whitespace, 0, [byteOrderMark]⟩ ∨ token ∈ body t := by
  rw [ofText_eq] at h
  split at h
  · exact List.mem_cons.1 h
  · exact .inr h

/-- Every token of a text has characters. -/
theorem ne_nil_of_mem_ofText {t : Text} {token : Token} (h : token ∈ ofText t) :
    token.text ≠ [] := by
  rcases mem_ofText h with rfl | h
  · simp
  · exact (proper_of_mem_body h).1

theorem kind_ne_endOfFile_of_mem_ofText {t : Text} {token : Token} (h : token ∈ ofText t) :
    token.kind ≠ .endOfFile := by
  rcases mem_ofText h with rfl | h
  · simp
  · exact kind_ne_endOfFile_of_mem_body h

/-- **The tokens of a text tile it.** -/
theorem tiles_ofText (t : Text) : Tiles t 0 (ofText t) t.size := by
  rw [ofText_eq_place]
  refine tiles_place (a := []) ?_
  rw [Lexeme.cut_eq]
  split
  · rename_i hmark
    obtain ⟨rest, rfl⟩ := List.head?_eq_some_iff.1 hmark
    rw [List.flatMap_cons, List.tail_cons, (Lexeme.of_mem_cutRest rest).1]
    rfl
  · rw [(Lexeme.of_mem_cutRest t).1]
    rfl

/-! ### The tokens the grammar reads -/

/-- What the grammar reads is a token that is no blank and no comment, the place of a line break,
or the end of the text. -/
theorem mem_significant {size : Nat} {pending : Bool} {tokens : List Token} {token : Token}
    (h : token ∈ significant size pending tokens) :
    (token ∈ tokens ∧ token.kind.isTrivia = false) ∨
      (token.kind = .symbol .semicolon ∧ token.text = []) ∨ token = .endOfFile size := by
  induction tokens generalizing pending with
  | nil =>
    refine .inr ?_
    unfold significant at h
    split at h
    · rw [List.mem_cons, List.mem_singleton] at h
      rcases h with rfl | h
      · exact .inl ⟨rfl, rfl⟩
      · exact .inr h
    · exact .inr (List.mem_singleton.1 h)
  | cons first tokens ih =>
    unfold significant at h
    split at h
    · split at h
      · -- at the end of a line a semicolon may be put in
        rcases List.mem_cons.1 h with rfl | h
        · exact .inr (.inl ⟨rfl, rfl⟩)
        · exact (ih h).imp_left fun hmem => ⟨List.mem_cons_of_mem _ hmem.1, hmem.2⟩
      · exact (ih h).imp_left fun hmem => ⟨List.mem_cons_of_mem _ hmem.1, hmem.2⟩
    · rename_i htrivia
      rcases List.mem_cons.1 h with rfl | h
      · exact .inl ⟨List.mem_cons_self .., by simpa using htrivia⟩
      · exact (ih h).imp_left fun hmem => ⟨List.mem_cons_of_mem _ hmem.1, hmem.2⟩

/-- **The tokens with characters** among those the grammar reads. -/
theorem filter_significant {size : Nat} {pending : Bool} {tokens : List Token}
    (h : ∀ token ∈ tokens, token.text ≠ []) :
    (significant size pending tokens).filter (fun token => !token.text.isEmpty) =
      tokens.filter fun token => !token.kind.isTrivia := by
  induction tokens generalizing pending with
  | nil =>
    unfold significant
    split <;> rfl
  | cons first tokens ih =>
    rw [List.forall_mem_cons] at h
    unfold significant
    split
    · rename_i htrivia
      rw [List.filter_cons_of_neg (by simp [htrivia])]
      split
      · rw [List.filter_cons_of_neg (by simp [lineEnd]), ih h.2]
      · exact ih h.2
    · rename_i htrivia
      rw [List.filter_cons_of_pos (by simpa using h.1),
        List.filter_cons_of_pos (by simpa using htrivia), ih h.2]

/-- The stream ends with the end of the text, and only there. -/
theorem exists_significant_eq_append (size : Nat) (pending : Bool) {tokens : List Token}
    (h : ∀ token ∈ tokens, token.kind ≠ .endOfFile) :
    ∃ init, significant size pending tokens = init ++ [.endOfFile size] ∧
      ∀ token ∈ init, token.kind ≠ .endOfFile := by
  induction tokens generalizing pending with
  | nil =>
    cases pending with
    | false => exact ⟨[], rfl, by simp⟩
    | true => exact ⟨[lineEnd size], rfl, by simp [lineEnd]⟩
  | cons first tokens ih =>
    rw [List.forall_mem_cons] at h
    unfold significant
    split
    · split
      · obtain ⟨init, hinit, hkinds⟩ := ih _ h.2
        exact ⟨lineEnd first.start :: init, by rw [hinit]; rfl, by simpa [lineEnd] using hkinds⟩
      · exact ih _ h.2
    · obtain ⟨init, hinit, hkinds⟩ := ih _ h.2
      exact ⟨first :: init, by rw [hinit]; rfl, by simpa using ⟨h.1, hkinds⟩⟩

/-- **The tokens the grammar reads follow one another.** -/
theorem pairwise_significant (pending : Bool) {t : Text} {start stop : Nat} {tokens : List Token}
    (h : Tiles t start tokens stop) :
    (∀ token ∈ significant stop pending tokens, start ≤ token.start) ∧
      (significant stop pending tokens).Pairwise fun a b => a.stop ≤ b.start := by
  induction tokens generalizing start pending with
  | nil =>
    obtain rfl : start = stop := h
    cases pending with
    | false => simp [significant, endOfFile]
    | true => simp [significant, endOfFile, lineEnd, Token.stop]
  | cons first tokens ih =>
    obtain ⟨rfl, hslice, hrest⟩ := h
    have hle := Text.le_of_slice? hslice
    have hafter {pending : Bool} : ∀ token ∈ significant stop pending tokens,
        first.stop ≤ token.start := (ih pending hrest).1
    have hweak {pending : Bool} : ∀ token ∈ significant stop pending tokens,
        first.start ≤ token.start := fun token htoken => hle.trans (hafter token htoken)
    unfold significant
    split
    · split
      · -- a semicolon that is put in stands where the line ends and has no characters
        rw [List.forall_mem_cons, List.pairwise_cons]
        refine ⟨⟨Nat.le_refl _, hweak⟩, ?_, (ih _ hrest).2⟩
        simpa using hweak
      · exact ⟨hweak, (ih _ hrest).2⟩
    · rw [List.forall_mem_cons, List.pairwise_cons]
      exact ⟨⟨Nat.le_refl _, hweak⟩, hafter, (ih _ hrest).2⟩

/-- **What the grammar reads is in the text:** a line break and the end of the text stand between two
characters or at an end. -/
theorem slice?_of_mem_significant {pending : Bool} {t : Text} {start stop : Nat}
    {tokens : List Token} (h : Tiles t start tokens stop) (hstart : t.IsBoundary start)
    {token : Token} (htoken : token ∈ significant stop pending tokens) :
    t.slice? token.start token.stop = some token.text := by
  induction tokens generalizing start pending with
  | nil =>
    obtain rfl : start = stop := h
    have hself := Text.slice?_self hstart
    unfold significant at htoken
    split at htoken
    · rcases List.mem_pair.1 htoken with rfl | rfl
      · rwa [stop_lineEnd]
      · rwa [stop_endOfFile]
    · obtain rfl := List.mem_singleton.1 htoken
      rwa [stop_endOfFile]
  | cons first tokens ih =>
    obtain ⟨rfl, hslice, hrest⟩ := h
    -- the semicolon of a line break stands before it and takes nothing of the text
    have hafter {pending : Bool} (hmem : token ∈ significant stop pending tokens) :
        t.slice? token.start token.stop = some token.text :=
      ih hrest (Text.isBoundary_of_slice? hslice).2 hmem
    unfold significant at htoken
    split at htoken
    · split at htoken
      · rcases List.mem_cons.1 htoken with rfl | hmem
        · rw [stop_lineEnd]
          exact Text.slice?_self hstart
        · exact hafter hmem
      · exact hafter htoken
    · rcases List.mem_cons.1 htoken with rfl | hmem
      · exact hslice
      · exact hafter hmem

end Token

namespace TokenStream

/-- **What the grammar reads of a text.** -/
theorem tokens_eq (t : Text) :
    (ofText t).tokens = Token.significant t.size false (Token.body t) := by
  rw [ofText, Token.ofText_eq]
  split
  · rfl
  · rfl

theorem mem_tokens {t : Text} {token : Token} (h : token ∈ (ofText t).tokens) :
    (token ∈ Token.body t ∧ token.kind.isTrivia = false) ∨
      (token.kind = .symbol .semicolon ∧ token.text = []) ∨ token = .endOfFile t.size := by
  rw [tokens_eq] at h
  exact Token.mem_significant h

/-- The tokens with characters are those that are neither blank nor a comment. -/
theorem filter_tokens (t : Text) :
    (ofText t).tokens.filter (fun token => !token.text.isEmpty) =
      (Token.body t).filter fun token => !token.kind.isTrivia := by
  rw [tokens_eq]
  exact Token.filter_significant fun token htoken => (Token.proper_of_mem_body htoken).1

theorem mem_tokens_of_mem_filter {t : Text} {token : Token}
    (h : token ∈ (Token.body t).filter fun token => !token.kind.isTrivia) :
    token ∈ (ofText t).tokens := by
  rw [← filter_tokens] at h
  exact List.mem_of_mem_filter h

/-- **Every token is in the text.** -/
theorem slice?_of_mem_tokens {t : Text} {token : Token} (h : token ∈ (ofText t).tokens) :
    t.slice? token.start token.stop = some token.text := by
  rw [tokens_eq] at h
  exact Token.slice?_of_mem_significant (Token.tiles_body t) (Token.isBoundary_bodyStart t) h

theorem pairwise_tokens (t : Text) : (ofText t).tokens.Pairwise fun a b => a.stop ≤ b.start := by
  rw [tokens_eq]
  exact (Token.pairwise_significant false (Token.tiles_body t)).2

/-- Where a rest of the stream starts with the end of the text, nothing else is left. -/
theorem eq_endOfFile_of_append {t : Text} {taken rest : List Token} {last : Token}
    (h : (ofText t).tokens = taken ++ last :: rest) (hlast : last.kind = .endOfFile) :
    last = .endOfFile t.size ∧ rest = [] := by
  obtain ⟨init, hinit, hkinds⟩ := Token.exists_significant_eq_append t.size false
    fun token (htoken : token ∈ Token.body t) => Token.kind_ne_endOfFile_of_mem_body htoken
  rw [tokens_eq, hinit] at h
  rcases List.eq_nil_or_concat rest with rfl | ⟨between, final, rfl⟩
  · exact ⟨(List.singleton_inj.1 (List.append_inj_right' h rfl)).symm, rfl⟩
  · rw [List.concat_eq_append, ← List.cons_append, ← List.append_assoc] at h
    have hmem : last ∈ init := by simp [List.append_inj_left' h rfl]
    exact absurd hlast (hkinds last hmem)

/-- **The comments of a text.** -/
theorem comments_eq (t : Text) :
    (ofText t).comments = (Token.body t).filter fun token => token.kind.isComment := by
  rw [ofText, Token.ofText_eq]
  split
  · rfl
  · rfl

/-- **The comments of a text** start one behind the other. -/
theorem pairwise_start_comments (t : Text) :
    (ofText t).comments.Pairwise fun a b => a.start < b.start := by
  rw [comments_eq]
  refine ((Token.tiles_body t).pairwise.filter _).imp_of_mem ?_
  intro a b ha _ hle
  exact (Token.start_lt_stop_of_mem_body (List.mem_of_mem_filter ha)).trans_le hle

end TokenStream

end GoTree
