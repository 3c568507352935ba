import GoTree.Proofs.Mapping.Comments

/-!
# Between recorded tokens

Where only blanks, comments and implied tokens stand, a gap is filled without error, whatever the
strictness, and the leaves stand for exactly these tokens and comments.  Implied tokens start with
different bytes, so each is recognized; the comments of a text are in order, so the place of the
cursor does not matter.

## Main definitions

* `Mapping.listedSpans`, `Token.spans`: the bytes of the listed leaves, and of tokens that are neither
  blank nor a comment
* `Mapping.Gap`: what a gap is filled with, wherever the cursor stands
* `Token.IsLoose`: tokens that may stand in a gap

## Main results

* `Mapping.exists_punctuation`: blanks and implied tokens
* `Mapping.exists_gap`: blanks, implied tokens and comments
* `Mapping.gap_of_blankBetween`: blanks alone
-/

namespace GoTree

/-! ### Implied tokens among bytes -/

/-- Nothing before a byte that is no blank is cut off. -/
theorem trimEnd_append {a b : List UInt8} {c : UInt8} (hlast : a.getLast? = some c)
    (hc : isSpaceByte c = false) : trimEnd (a ++ b) = a ++ trimEnd b := by
  obtain ⟨a, rfl⟩ := List.getLast?_eq_some_iff.1 hlast
  have hkept : (c :: a.reverse).dropWhile isSpaceByte = c :: a.reverse := by simp [hc]
  simp only [trimEnd, List.reverse_append, List.reverse_singleton, List.singleton_append,
    List.dropWhile_append, hkept]
  split
  · rename_i hempty
    simp [List.isEmpty_iff.1 hempty]
  · simp

theorem trimEnd_of_blank {bs : List UInt8} (h : ∀ b ∈ bs, isSpaceByte b = true) :
    trimEnd bs = [] := by
  rw [trimEnd, List.reverse_eq_nil_iff, List.dropWhile_eq_nil_iff]
  intro b hb
  exact h b (List.mem_reverse.1 hb)

/-- Nothing is cut off from blanks and a word before what follows them. -/
theorem trimEnd_word {blanks : List UInt8} {word : String} (hword : word ∈ impliedWords)
    (rest : List UInt8) :
    trimEnd (blanks ++ (wordBytes word ++ rest)) = blanks ++ (wordBytes word ++ trimEnd rest) := by
  obtain ⟨hne, hbytes⟩ := wordBytes_of_mem hword
  obtain ⟨c, hc⟩ : ∃ c, (wordBytes word).getLast? = some c :=
    Option.isSome_iff_exists.1 (by simpa using hne)
  have hlast : (blanks ++ wordBytes word).getLast? = some c := by
    rw [List.getLast?_append, hc]
    rfl
  rw [← List.append_assoc, trimEnd_append hlast (hbytes c (List.mem_of_getLast? hc)).2,
    List.append_assoc]

/-- **One step of the scan:** blanks and a word, then what follows. -/
theorem piecesFrom_word {n offset : Nat} {blanks : List UInt8} {word : String}
    (hblanks : ∀ b ∈ blanks, isSpaceByte b = true) (hword : word ∈ impliedWords)
    (rest : List UInt8) :
    piecesFrom (n + 1) offset (blanks ++ (wordBytes word ++ rest)) =
      .implied word (offset + blanks.length) (offset + blanks.length + (wordBytes word).length) ::
        piecesFrom n (offset + blanks.length + (wordBytes word).length) rest := by
  obtain ⟨hne, hbytes⟩ := wordBytes_of_mem hword
  have hhead : ∀ b ∈ (wordBytes word ++ rest).head?, isSpaceByte b = false := by
    intro b hb
    rw [List.head?_append_of_ne_nil _ hne] at hb
    exact (hbytes b (List.mem_of_mem_head? hb)).2
  rw [piecesFrom_blank_append hblanks hhead, if_neg (by simp [hne]), impliedPrefix?_append hword]
  dsimp only
  rw [List.drop_left]

namespace Token

/-- **Tokens that may stand in a gap:** blanks, comments and implied tokens. -/
def IsLoose (token : Token) : Prop :=
  token.kind.isTrivia = true ∨ token.kind.IsImplied

/-- The bytes of the tokens that are neither blank nor a comment. -/
def spans (tokens : List Token) : List (Nat × Nat) :=
  (tokens.filter fun token => !token.kind.isTrivia).map fun token => (token.start, token.stop)

@[simp]
theorem spans_nil : spans [] = [] := rfl

@[simp]
theorem spans_append (tokens rest : List Token) :
    spans (tokens ++ rest) = spans tokens ++ spans rest := by
  simp [spans]

theorem spans_cons_of_isTrivia {token : Token} (h : token.kind.isTrivia = true)
    (rest : List Token) : spans (token :: rest) = spans rest := by
  simp [spans, h]

theorem spans_cons_of_not_isTrivia {token : Token} (h : token.kind.isTrivia = false)
    (rest : List Token) : spans (token :: rest) = (token.start, token.stop) :: spans rest := by
  simp [spans, h]

/-- An implied token is spelled by one of the words. -/
theorem exists_word_of_isImplied {token : Token} (hproper : token.Proper)
    (h : token.kind.IsImplied) :
    token.kind.isTrivia = false ∧ ∃ word ∈ impliedWords, token.text.bytes = wordBytes word := by
  obtain ⟨word, hmem, hword⟩ := h
  obtain ⟨kind, start, text⟩ := token
  cases kind with
  | symbol s =>
    obtain rfl : text = s.chars := hproper
    obtain rfl : s.spelling = word := Option.some.inj hword
    exact ⟨rfl, _, hmem, rfl⟩
  | keyword k =>
    obtain rfl : text = k.spelling.toList := hproper
    obtain rfl : k.spelling = word := Option.some.inj hword
    exact ⟨rfl, _, hmem, rfl⟩
  | literal | name | whitespace | newline | lineComment | blockComment | unknown | endOfFile =>
    simp [Kind.spelling?] at hword

/-- Trivia that are no comments are blank. -/
theorem blank_of_isTrivia {token : Token} (hproper : token.Proper)
    (htrivia : token.kind.isTrivia = true) (hcomment : token.kind.isComment = false) :
    token.text.Blank := by
  obtain ⟨kind, start, text⟩ := token
  cases kind with
  | whitespace | newline => exact hproper
  | lineComment | blockComment => simp [Kind.isComment] at hcomment
  | symbol | keyword | literal | name | unknown | endOfFile => simp [Kind.isTrivia] at htrivia

end Token

namespace Mapping

variable {m : Mapping}

/-- The bytes of the leaves that are listed among the tokens. -/
def listedSpans (leaves : List Node) : List (Nat × Nat) :=
  (leaves.filter isListed).map fun leaf => (leaf.start, leaf.stop)

@[simp]
theorem listedSpans_nil : listedSpans [] = [] := rfl

@[simp]
theorem listedSpans_append (leaves rest : List Node) :
    listedSpans (leaves ++ rest) = listedSpans leaves ++ listedSpans rest := by
  simp [listedSpans]

theorem listedSpans_cons_of_plain {leaf : Node} (h : Tag.Plain leaf.tags) (rest : List Node) :
    listedSpans (leaf :: rest) = (leaf.start, leaf.stop) :: listedSpans rest := by
  have hlisted : isListed leaf = true := by
    simpa [isListed, Node.hasTag, Tag.Plain] using h
  simp [listedSpans, hlisted]

theorem listedSpans_cons_of_not_isListed {leaf : Node} (h : isListed leaf = false)
    (rest : List Node) : listedSpans (leaf :: rest) = listedSpans rest := by
  simp [listedSpans, h]

/-! ### Punctuation -/

theorem plain_impliedTags (word : String) : Tag.Plain (impliedTags word) := by
  unfold impliedTags
  split
  · decide
  · exact Tag.plain_nil

@[simp]
theorem piecesFrom_nil (n offset : Nat) : piecesFrom n offset [] = [] := by
  cases n <;> rfl

/-- **Blanks and implied tokens are found** among the bytes of a stretch, however far the search may
go. -/
theorem exists_pieceLeaves {tokens : List Token} {z : Text} {start middle stop : Nat}
    (hz : z.Blank) (hslice : m.text.slice? start middle = some z)
    (htiles : Tiles m.text middle tokens stop)
    (hproper : ∀ token ∈ tokens, token.text ≠ [] ∧ token.Proper)
    (hloose : ∀ token ∈ tokens, token.IsLoose ∧ token.kind.isComment = false) (n : Nat)
    (hn : (trimEnd (z ++ tokens.flatMap Token.text).bytes).length ≤ n) :
    ∃ leaves, m.pieceLeaves
        (piecesFrom n start (trimEnd (z ++ tokens.flatMap Token.text).bytes)) = .ok leaves ∧
      (∀ leaf ∈ leaves, leaf.isLeaf = true) ∧ listedSpans leaves = Token.spans tokens := by
  induction tokens generalizing z start middle n with
  | nil =>
    have hnil : trimEnd (z ++ [].flatMap Token.text).bytes = [] := by
      refine trimEnd_of_blank ?_
      rw [List.flatMap_nil, List.append_nil]
      exact Text.blank_iff_isSpaceByte.1 hz
    rw [hnil, piecesFrom_nil]
    exact ⟨[], rfl, by simp, rfl⟩
  | cons token tokens ih =>
    rw [List.forall_mem_cons] at hproper hloose
    obtain ⟨rfl, htoken, hrest⟩ := htiles
    obtain ⟨hlooseToken, hcomment⟩ := hloose.1
    by_cases htrivia : token.kind.isTrivia = true
    · -- a blank token lengthens the blanks before the next token
      have hblank := Token.blank_of_isTrivia hproper.1.2 htrivia hcomment
      rw [List.flatMap_cons, ← List.append_assoc] at hn ⊢
      rw [Token.spans_cons_of_isTrivia htrivia]
      exact ih (Text.blank_append.2 ⟨hz, hblank⟩) (Text.slice?_append hslice htoken) hrest
        hproper.2 hloose.2 n hn
    · -- the word of an implied token stands behind the blanks, and the search goes on behind it
      have himplied := hlooseToken.resolve_left htrivia
      obtain ⟨-, word, hmem, hword⟩ := Token.exists_word_of_isImplied hproper.1.2 himplied
      have hpos := List.length_pos_iff.2 (wordBytes_of_mem hmem).1
      have hbytes : Text.bytes (z ++ (token :: tokens).flatMap Token.text) =
          z.bytes ++ (wordBytes word ++ Text.bytes (tokens.flatMap Token.text)) := by
        rw [List.flatMap_cons, Text.bytes_append, Text.bytes_append, hword]
      rw [hbytes, trimEnd_word hmem] at hn ⊢
      simp only [List.length_append] at hn
      -- the word is not empty, so there is fuel for what is behind it
      obtain ⟨n, rfl⟩ : ∃ k, n = k + 1 := Nat.exists_eq_add_one.2 (by omega)
      obtain ⟨leaves, hleaves, hall, hspans⟩ := ih Text.blank_nil
        (Text.slice?_self (Text.isBoundary_of_slice? htoken).2) hrest hproper.2 hloose.2 n
        (by rw [List.nil_append]; omega)
      obtain ⟨p, -, hleaf⟩ := leafAt_of_slice? (impliedTags word) "" htoken (.inl hproper.1.1)
      rw [piecesFrom_word (Text.blank_iff_isSpaceByte.1 hz) hmem]
      have hstart : start + z.bytes.length = token.start := by
        obtain ⟨a, b, -, -, hsize⟩ := Text.slice?_eq_some_iff.1 hslice
        rwa [Text.length_bytes]
      have hstop : token.start + (wordBytes word).length = token.stop := by
        rw [← hword, Text.length_bytes]
        rfl
      rw [hstart, hstop, pieceLeaves, pieceLeaf, hleaf]
      rw [List.nil_append] at hleaves
      rw [hleaves]
      refine ⟨_, rfl, List.forall_mem_cons.2 ⟨rfl, hall⟩, ?_⟩
      rw [Token.spans_cons_of_not_isTrivia (by simpa using htrivia), ← hspans]
      exact listedSpans_cons_of_plain (plain_impliedTags word) leaves

/-- **Blanks and implied tokens between two offsets are found.** -/
theorem exists_punctuation {tokens : List Token} {start middle stop : Nat}
    (hblank : m.text.BlankBetween start middle) (htiles : Tiles m.text middle tokens stop)
    (hproper : ∀ token ∈ tokens, token.text ≠ [] ∧ token.Proper)
    (hloose : ∀ token ∈ tokens, token.IsLoose ∧ token.kind.isComment = false) :
    ∃ leaves, m.punctuation start stop = .ok leaves ∧ (∀ leaf ∈ leaves, leaf.isLeaf = true) ∧
      listedSpans leaves = Token.spans tokens := by
  obtain ⟨z, hz, hzblank⟩ := hblank
  have hslice := Text.slice?_append hz (htiles.slice? (Text.isBoundary_of_slice? hz).2)
  rw [punctuation, gapPieces, Text.bytesIn_of_slice? hslice]
  exact exists_pieceLeaves hzblank hz htiles hproper hloose _ (Nat.le_refl _)

theorem punctuation_of_blankBetween {start stop : Nat} (h : m.text.BlankBetween start stop) :
    m.punctuation start stop = .ok [] := by
  obtain ⟨x, hx, hblank⟩ := h
  rw [punctuation, gapPieces, Text.bytesIn_of_slice? hx,
    trimEnd_of_blank (Text.blank_iff_isSpaceByte.1 hblank), piecesFrom_nil]
  rfl

/-! ### Gaps -/

/-- **What a gap is filled with**, wherever the cursor stands among the comments. -/
structure Gap (m : Mapping) (comments : List Node) (start stop : Nat) (gap : List Node) : Prop where
  leaves : ∀ leaf ∈ gap, leaf.isLeaf = true
  filled : ∀ cursor : CommentCursor, cursor.toList = comments →
    ∃ cursor', m.fillGap start stop cursor = .ok (gap, cursor')

/-- Comments that start before a gap are passed over. -/
theorem fillFrom_append {start stop : Nat} {passed before ahead : List Node}
    (h : ∀ comment ∈ before, comment.start < start) :
    m.fillFrom stop start passed (before ++ ahead) =
      m.fillFrom stop start (before.reverse ++ passed) ahead := by
  induction before generalizing passed with
  | nil => rfl
  | cons comment before ih =>
    rw [List.forall_mem_cons] at h
    rw [List.cons_append, fillFrom, if_pos h.1, ih h.2, List.reverse_cons, List.append_assoc]
    rfl

/-- Moving back stops at a comment that starts before the gap, if there is one. -/
theorem rewindFrom_passed (offset : Nat) (passed ahead : List Node) :
    ∀ comment ∈ (CommentCursor.rewindFrom offset passed ahead).passed.head?,
      comment.start < offset := by
  induction passed generalizing ahead with
  | nil => simp [CommentCursor.rewindFrom]
  | cons comment passed ih =>
    unfold CommentCursor.rewindFrom
    split
    · exact ih _
    · rename_i hlt
      simpa using hlt

/-- **Moving back ends among the comments before the gap** or behind the last of them, when these
are the first ones. -/
theorem exists_rewind {start : Nat} {cursor : CommentCursor} {before after : List Node}
    (hcursor : cursor.toList = before ++ after)
    (hafter : ∀ comment ∈ after, start ≤ comment.start) :
    ∃ skipped, before = (cursor.rewind start).passed.reverse ++ skipped ∧
      (cursor.rewind start).ahead = skipped ++ after := by
  have hstop := rewindFrom_passed start cursor.passed cursor.ahead
  have hlist : (cursor.rewind start).passed.reverse ++ (cursor.rewind start).ahead =
      before ++ after := (CommentCursor.toList_rewind cursor start).trans hcursor
  change ∀ comment ∈ (cursor.rewind start).passed.head?, comment.start < start at hstop
  generalize cursor.rewind start = back at hstop hlist ⊢
  rcases List.append_eq_append_iff.1 hlist with
    ⟨skipped, hbefore, hahead⟩ | ⟨extra, hpassed, hafter'⟩
  · exact ⟨skipped, hbefore, hahead⟩
  · -- a comment passed that does not start before the gap would be the last one passed
    rcases List.eq_nil_or_concat extra with rfl | ⟨others, last, rfl⟩
    · exact ⟨[], by simpa using hpassed.symm, by simpa using hafter'.symm⟩
    · have hhead : back.passed.head? = some last := by
        rw [← List.getLast?_reverse, hpassed, List.concat_eq_append, ← List.append_assoc,
          List.getLast?_concat]
      have hlt := hstop last hhead
      have hle := hafter last (by simp [hafter'])
      omega

/-- **The place of the cursor does not matter** when the comments before the gap are the first
ones. -/
theorem fillGap_eq {start stop : Nat} {cursor : CommentCursor} {before after : List Node}
    (hcursor : cursor.toList = before ++ after) (hbefore : ∀ comment ∈ before, comment.start < start)
    (hafter : ∀ comment ∈ after, start ≤ comment.start) :
    m.fillGap start stop cursor = m.fillFrom stop start before.reverse after := by
  obtain ⟨skipped, hskipped, hahead⟩ := exists_rewind hcursor hafter
  have hskip : ∀ comment ∈ skipped, comment.start < start := by
    intro comment hcomment
    apply hbefore
    rw [hskipped]
    exact List.mem_append_right _ hcomment
  rw [fillGap, hahead, fillFrom_append hskip]
  conv_rhs => rw [hskipped, List.reverse_append, List.reverse_reverse]

/-- **Blanks, comments and implied tokens are found** from a place on, when the comments ahead are
those of the stretch and others behind it. -/
theorem exists_filling {tokens : List Token} {nodes later : List Node} {start middle stop : Nat}
    (passed : List Node) (hblank : m.text.BlankBetween start middle)
    (htiles : Tiles m.text middle tokens stop)
    (hbody : ∀ token ∈ tokens, token ∈ Token.body m.text)
    (hloose : ∀ token ∈ tokens, token.IsLoose)
    (hnodes : List.Forall₂ (Token.IsCommentLeaf m.text)
      (tokens.filter fun token => token.kind.isComment) nodes)
    (hlater : ∀ comment ∈ later, stop ≤ comment.start ∧ comment.start < comment.stop) :
    ∃ gap cursor, m.Filling stop start passed (nodes ++ later) gap cursor ∧
      (∀ leaf ∈ gap, leaf.isLeaf = true) ∧ listedSpans gap = Token.spans tokens := by
  induction nodes generalizing tokens start middle passed with
  | nil =>
    have hcomments : ∀ token ∈ tokens, token.kind.isComment = false := by
      simpa [List.filter_eq_nil_iff] using List.forall₂_nil_right_iff.1 hnodes
    obtain ⟨leaves, hleaves, hall, hspans⟩ := exists_punctuation hblank htiles
      (fun token htoken => Token.proper_of_mem_body (hbody token htoken))
      (fun token htoken => ⟨hloose token htoken, hcomments token htoken⟩)
    refine ⟨leaves, ⟨passed, later⟩, .ended ?_ hleaves, hall, hspans⟩
    -- the next comment lies behind the stretch, so the search ends there
    intro comment hcomment
    obtain ⟨hafter, hlt⟩ := hlater comment (List.mem_of_mem_head? hcomment)
    have hle := hblank.le.trans htiles.le
    omega
  | cons comment nodes ih =>
    obtain ⟨token, rest, htoken, hrest, hfilter⟩ := List.forall₂_cons_right_iff.1 hnodes
    obtain ⟨front, back, rfl, hfront, hkind, rfl⟩ := List.filter_eq_cons_iff.1 hfilter
    obtain ⟨offset, htilesFront, rfl, -, htilesBack⟩ := Tiles.append_iff.1 htiles
    simp only [List.forall_mem_append, List.forall_mem_cons] at hbody hloose
    rw [← htoken.start] at htilesFront
    -- the bytes up to the comment hold no other comment
    obtain ⟨leaves, hleaves, hall, hspans⟩ := exists_punctuation hblank htilesFront
      (fun other hother => Token.proper_of_mem_body (hbody.1 other hother))
      (fun other hother => ⟨hloose.1 other hother, by simpa using hfront other hother⟩)
    have hblank' := Token.blankBetween_commentStop hbody.2.1 hkind
    rw [← htoken.stop] at hblank'
    obtain ⟨gap, cursor, hgap, hall', hspans'⟩ := ih (comment :: passed) hblank' htilesBack
      hbody.2.2 hloose.2.2 hrest
    have hstart := hblank.le.trans htilesFront.le
    have hstop := hblank'.le.trans htilesBack.le
    have hlisted : isListed comment = false := by simp [isListed, htoken.tagged]
    refine ⟨leaves ++ comment :: gap, cursor, .found hstart hstop hleaves hgap, ?_, ?_⟩
    · rw [List.forall_mem_append, List.forall_mem_cons]
      exact ⟨hall, htoken.slice.isLeaf, hall'⟩
    · rw [listedSpans_append, listedSpans_cons_of_not_isListed hlisted, hspans, hspans',
        Token.spans_append,
        Token.spans_cons_of_isTrivia (Token.Kind.isTrivia_of_isComment hkind)]

/-- **Where only blanks, comments and implied tokens stand, the gap is filled** with exactly these
tokens and comments. -/
theorem exists_gap {tokens : List Token} {before nodes later : List Node} {start stop : Nat}
    (hstart : m.text.IsBoundary start) (htiles : Tiles m.text start tokens stop)
    (hbody : ∀ token ∈ tokens, token ∈ Token.body m.text)
    (hloose : ∀ token ∈ tokens, token.IsLoose)
    (hnodes : List.Forall₂ (Token.IsCommentLeaf m.text)
      (tokens.filter fun token => token.kind.isComment) nodes)
    (hbefore : ∀ comment ∈ before, comment.start < start)
    (hlater : ∀ comment ∈ later, stop ≤ comment.start ∧ comment.start < comment.stop) :
    ∃ gap, m.Gap (before ++ (nodes ++ later)) start stop gap ∧
      listedSpans gap = Token.spans tokens := by
  obtain ⟨gap, cursor, hgap, hall, hspans⟩ := exists_filling before.reverse
    (Text.blankBetween_self hstart) htiles hbody hloose hnodes hlater
  -- the comments of the stretch start in it, and the later ones behind it
  have hafter : ∀ comment ∈ nodes ++ later, start ≤ comment.start := by
    rw [List.forall_mem_append]
    constructor
    · intro comment hcomment
      obtain ⟨token, htoken, hleaf⟩ := Token.exists_of_mem_forall₂ hnodes hcomment
      rw [hleaf.start]
      exact (htiles.le_of_mem (List.mem_of_mem_filter htoken)).1
    · intro comment hcomment
      exact htiles.le.trans (hlater comment hcomment).1
  refine ⟨gap, ⟨hall, fun cursor' hcursor => ⟨cursor, ?_⟩⟩, hspans⟩
  rw [fillGap_eq hcursor hbefore hafter]
  exact fillFrom_eq_ok_iff.2 hgap

/-- **Where only blanks stand, nothing is filled in.** -/
theorem gap_of_blankBetween {comments : List Node} {start stop : Nat}
    (hcomments : ∀ comment ∈ comments, comment.IsSlice m.text ∧ comment.start < comment.stop ∧
      comment.value.toList.head? = some '/')
    (hblank : m.text.BlankBetween start stop) : m.Gap comments start stop [] := by
  refine ⟨by simp, ?_⟩
  intro cursor hcursor
  have hahead : ∀ comment ∈ (cursor.rewind start).ahead, comment ∈ comments := by
    intro comment hcomment
    rw [← hcursor, ← CommentCursor.toList_rewind cursor start]
    exact List.mem_append_right _ hcomment
  have hnone := punctuation_of_blankBetween hblank
  simp only [fillGap, fillFrom_eq_ok_iff]
  generalize (cursor.rewind start).passed = passed
  generalize (cursor.rewind start).ahead = ahead at hahead
  induction ahead generalizing passed with
  | nil => exact ⟨⟨passed, []⟩, .ended (by simp) hnone⟩
  | cons comment ahead ih =>
    rw [List.forall_mem_cons] at hahead
    rcases Nat.lt_or_ge comment.start start with hbefore | hstart
    · obtain ⟨last, hrest⟩ := ih (comment :: passed) hahead.2
      exact ⟨last, .skipped hbefore hrest⟩
    · rcases Nat.lt_or_ge stop comment.stop with hbeyond | hstop
      · exact ⟨_, .ended (by simp [hstart, hbeyond]) hnone⟩
      · -- a comment in the gap would start with a slash
        obtain ⟨hslice, hlt, hslash⟩ := hcomments comment hahead.1
        have hle := hblank.blank_of_slice? hstart (hlt.trans_le hstop) hslice.slice? hslash
        exact absurd hle (by decide)

end Mapping

end GoTree
