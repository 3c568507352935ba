import GoTree.Proofs.Mapping.Layout

/-!
# Files read from a text can be mapped

A file that was read from a text accounts for all its tokens, so the tokens of its plan are laid out
over the text: every recorded token is found, and between two of them only blanks, comments and
implied tokens stand.  Hence the mapping makes a document, in which every token is a leaf.

## Main results

* `Mapping.exists_laid`: the tokens of a file are laid out over its text
* `mapFile_complete`: a file read from a text is mapped, token for token
-/

namespace GoTree

/-- What is shown of a comment has bytes. -/
theorem Token.IsCommentLeaf.start_lt_stop {t : Text} {token : Token} {node : Node}
    (h : token.IsCommentLeaf t node) (hbody : token ∈ Token.body t)
    (hkind : token.kind.isComment = true) : node.start < node.stop := by
  obtain ⟨-, -, -, hhead, -⟩ :=
    Token.shown_of_isComment (Token.proper_of_mem_body hbody).2 hkind
  have hne : token.shown ≠ [] := by
    intro hnil
    simp [hnil] at hhead
  have hpos := Text.size_pos hne
  rw [h.start, h.stop, Token.commentStop]
  omega

/-- The leaf of a comment starts with a slash. -/
theorem Token.IsCommentLeaf.head?_value {t : Text} {token : Token} {node : Node}
    (h : token.IsCommentLeaf t node) (hbody : token ∈ Token.body t)
    (hkind : token.kind.isComment = true) : node.value.toList.head? = some '/' := by
  obtain ⟨hslice, hhead⟩ := Mapping.exists_slash hbody hkind
  have hlt := h.start_lt_stop hbody hkind
  have hvalue := h.slice.slice?
  have hne : node.value.toList ≠ [] := by
    intro hnil
    obtain ⟨a, b, -, -, hsize⟩ := Text.slice?_eq_some_iff.1 hvalue
    rw [hnil, Text.size_nil] at hsize
    omega
  rw [h.start] at hvalue
  rw [Text.head?_of_slice? hvalue hslice hne (Token.proper_of_mem_body hbody).1, hhead]

/-- **The next token is loose or recorded.** -/
theorem Accounts.of_cons {token : Token} {tokens : List Token} {recorded : List Recorded}
    (h : Accounts ((token :: tokens).filter fun token => !token.kind.isTrivia) recorded) :
    (token.IsLoose ∧ Accounts (tokens.filter fun token => !token.kind.isTrivia) recorded) ∨
      token.kind.isTrivia = false ∧ ∃ r others, recorded = r :: others ∧ r.Denotes token ∧
        Accounts (tokens.filter fun token => !token.kind.isTrivia) others := by
  by_cases htrivia : token.kind.isTrivia = true
  · rw [List.filter_cons_of_neg (by simp [htrivia])] at h
    exact .inl ⟨.inl htrivia, h⟩
  · rw [List.filter_cons_of_pos (by simp [htrivia])] at h
    cases h with
    | implied kind rest => exact .inl ⟨.inr kind, rest⟩
    | recorded denotes rest =>
      exact .inr ⟨by simpa using htrivia, _, _, rfl, denotes, rest⟩

namespace Mapping

variable {m : Mapping} {comments : List Node}

theorem forall₂_append_left {α β : Type} {R : α → β → Prop} {front back : List α} {list : List β}
    (h : List.Forall₂ R (front ++ back) list) :
    ∃ first second, list = first ++ second ∧ List.Forall₂ R front first ∧
      List.Forall₂ R back second := by
  induction front generalizing list with
  | nil => exact ⟨[], list, rfl, .nil, h⟩
  | cons a front ih =>
    cases h with
    | cons head rest =>
      obtain ⟨first, second, rfl, hfront, hback⟩ := ih rest
      exact ⟨_, second, rfl, .cons head hfront, hback⟩

/-- **The tokens of a file are laid out over its text.**  The walk over the tokens of the text keeps
those since the last recorded one, which are loose; a recorded token closes the gap. -/
theorem exists_laid (hreturn : ∀ token ∈ Token.body m.text, token.hasQuotedReturn = false)
    {tokens : List Token} (mid : List Token) {planned : List Plan.Leaf} {before nodes : List Node}
    {start : Nat}
    (hstart : m.text.IsBoundary start) (htiles : Tiles m.text start (mid ++ tokens) m.text.size)
    (hbody : ∀ token ∈ mid ++ tokens, token ∈ Token.body m.text)
    (hmid : ∀ token ∈ mid, token.IsLoose)
    (haccounts : Accounts (tokens.filter fun token => !token.kind.isTrivia)
      (planned.map Plan.Leaf.recorded))
    (hplain : ∀ leaf ∈ planned, Tag.Plain leaf.tags)
    (hnodes : List.Forall₂ (Token.IsCommentLeaf m.text)
      ((mid ++ tokens).filter fun token => token.kind.isComment) nodes)
    (hbefore : ∀ comment ∈ before, comment.start < start) :
    ∃ laid stop, m.Laid (before ++ nodes) (some start)
        (planned ++ [⟨[.endOfFile], m.text.size, "", ""⟩]) laid stop ∧
      listedSpans laid = Token.spans (mid ++ tokens) := by
  -- the gap before a token is filled at once, so the tokens of it are collected in `mid`
  induction tokens generalizing mid planned before nodes start with
  | nil =>
    obtain rfl : planned = [] := by
      cases haccounts' : planned.map Plan.Leaf.recorded with
      | nil => exact List.map_eq_nil_iff.1 haccounts'
      | cons r recorded =>
        rw [haccounts'] at haccounts
        cases haccounts
    rw [List.append_nil] at htiles hbody hnodes ⊢
    obtain ⟨last, hlast, hmade⟩ := expect_end m
    have hnone : ∀ comment ∈ ([] : List Node), m.text.size ≤ comment.start ∧
        comment.start < comment.stop := by simp
    obtain ⟨gap, hgap, hspans⟩ := exists_gap hstart htiles hbody hmid hnodes hbefore hnone
    rw [List.append_nil, ← hlast.start] at hgap
    refine ⟨gap ++ [last], some last.stop, .next hmade ?_ hgap .nil, ?_⟩
    · rw [hlast.start]
      exact htiles.le
    · have hlisted : isListed last = false := by simp [isListed, Node.hasTag, hlast.tags]
      rw [listedSpans_append, listedSpans_cons_of_not_isListed hlisted, hspans]
      simp
  | cons token tokens ih =>
    rcases haccounts.of_cons with ⟨hloose, hrest⟩ | ⟨htrivia, r, recorded, hplanned, hdenotes, hrest⟩
    · -- a loose token joins those since the last recorded one
      rw [List.append_cons mid token tokens] at htiles hbody hnodes ⊢
      refine ih _ hstart htiles hbody ?_ hrest hplain hnodes hbefore
      rw [List.forall_mem_append, List.forall_mem_singleton]
      exact ⟨hmid, hloose⟩
    · -- a recorded token is found, and closes the gap since the last one
      obtain ⟨leaf, planned, rfl, rfl, rfl⟩ := List.map_eq_cons_iff.1 hplanned
      rw [List.forall_mem_cons] at hplain
      rw [List.forall_mem_append, List.forall_mem_cons] at hbody
      obtain ⟨offset, htilesMid, rfl, hslice, htilesRest⟩ := Tiles.append_iff.1 htiles
      have hcomment : token.kind.isComment = false := by
        by_contra hcomment
        rw [Token.Kind.isTrivia_of_isComment (by simpa using hcomment)] at htrivia
        simp at htrivia
      rw [List.filter_append, List.filter_cons_of_neg (by simp [hcomment])] at hnodes
      obtain ⟨inside, later, rfl, hinside, hlater⟩ := forall₂_append_left hnodes
      have hlt := Token.start_lt_stop_of_mem_body hbody.2.1
      -- the comments of the gap are those of the tokens in `mid`: all others start later
      have hafter : ∀ comment ∈ later, token.start ≤ comment.start ∧
          comment.start < comment.stop := by
        intro comment hmem
        obtain ⟨other, hother, hleaf⟩ := Token.exists_of_mem_forall₂ hlater hmem
        obtain ⟨hother, hkind⟩ := List.mem_filter.1 hother
        have hle := (htilesRest.le_of_mem hother).1
        refine ⟨?_, hleaf.start_lt_stop (hbody.2.2 other hother) hkind⟩
        rw [hleaf.start]
        omega
      obtain ⟨gap, hgap, hgapSpans⟩ :=
        exists_gap hstart htilesMid hbody.1 hmid hinside hbefore hafter
      obtain ⟨node, hmade, hnodeStart, hnodeStop⟩ :=
        expectLeaf_of_denotes hdenotes hbody.2.1 (hreturn token hbody.2.1)
      -- before the next gap stand these comments and those passed earlier
      have hbefore' : ∀ comment ∈ before ++ inside, comment.start < token.stop := by
        rw [List.forall_mem_append]
        constructor
        · intro comment hmem
          have hle := htilesMid.le
          have hlt' := hbefore comment hmem
          omega
        · intro comment hmem
          obtain ⟨other, hother, hleaf⟩ := Token.exists_of_mem_forall₂ hinside hmem
          have hother := List.mem_of_mem_filter hother
          have hle := (htilesMid.le_of_mem hother).2
          have hlt' := Token.start_lt_stop_of_mem_body (hbody.1 other hother)
          rw [hleaf.start]
          omega
      obtain ⟨laid, stop, hlaid, hspans⟩ := ih [] (Text.isBoundary_of_slice? hslice).2 htilesRest
        hbody.2.2 (by simp) hrest hplain.2 hlater hbefore'
      rw [List.append_assoc, ← hnodeStop] at hlaid
      rw [← hnodeStart] at hgap
      refine ⟨gap ++ node :: laid, stop, .next hmade ?_ hgap hlaid, ?_⟩
      · rw [hnodeStart]
        exact htilesMid.le
      · rw [listedSpans_append, listedSpans_cons_of_plain (plain_of_expectLeaf hplain.1 hmade).2,
          Token.spans_append, Token.spans_cons_of_not_isTrivia htrivia, hgapSpans, hspans, hnodeStart,
          hnodeStop]
        rfl

/-! ### Documents -/

theorem exists_collect {α β : Type} {f : α → Except MapError β} {list : List α}
    (h : ∀ a ∈ list, ∃ b, f a = .ok b) : ∃ results, collect f list = .ok results := by
  induction list with
  | nil => exact ⟨[], rfl⟩
  | cons a list ih =>
    rw [List.forall_mem_cons] at h
    obtain ⟨b, hb⟩ := h.1
    obtain ⟨results, hresults⟩ := ih h.2
    exact ⟨b :: results, by rw [collect, hb, hresults]⟩

/-- Leaves that hold the text they span have lines and columns. -/
theorem exists_lineRange {node : Node} (h : node.IsSlice m.text) :
    ∃ range, m.lineRange node = .ok range := by
  obtain ⟨first, hfirst⟩ := exists_lineColumn? h.isBoundary.1
  obtain ⟨last, hlast⟩ := exists_lineColumn? h.isBoundary.2
  exact ⟨_, by rw [lineRange, hfirst, hlast]⟩

/-- The leaves of a tree hold the text they span. -/
theorem isSlice_of_fileNode {file : File} {tree : Node}
    (hcomments : m.commentLeaves file.allComments = .ok comments)
    (htree : m.fileNode file (.start comments) = .ok (some tree)) :
    ∀ leaf ∈ tree.leaves, leaf.IsSlice m.text := by
  have hslices := fun leaf hleaf => (isSlice_of_commentLeaves hcomments leaf hleaf).1
  obtain ⟨before, last, hshape⟩ := fileNode_eq_ok hslices rfl htree
  intro leaf hleaf
  have hpart := (hshape.composed hslices).part_of_mem_leaves (Part.isSlice hslices) hleaf
  exact hpart.isSlice hslices

/-- **A tree is all that a document needs:** the tables can always be read off. -/
theorem exists_document {file : File} {tree : Node}
    (hcomments : m.commentLeaves file.allComments = .ok comments)
    (htree : m.fileNode file (.start comments) = .ok (some tree)) :
    ∃ doc, m.document file = .ok doc ∧ doc.tree = tree := by
  have hslices := fun leaf hleaf => (isSlice_of_commentLeaves hcomments leaf hleaf).1
  have hleaves := isSlice_of_fileNode hcomments htree
  obtain ⟨commentTable, hcommentTable⟩ : ∃ table, collect m.commentEntry comments = .ok table := by
    refine exists_collect fun comment hcomment => ?_
    obtain ⟨range, hrange⟩ := exists_lineRange (hslices comment hcomment)
    exact ⟨_, by rw [commentEntry, hrange]⟩
  obtain ⟨tokenTable, htokenTable⟩ :
      ∃ table, collect m.tokenEntry (tree.leaves.filter isListed) = .ok table := by
    refine exists_collect fun leaf hleaf => ?_
    obtain ⟨range, hrange⟩ := exists_lineRange (hleaves leaf (List.mem_of_mem_filter hleaf))
    exact ⟨_, by rw [tokenEntry, hrange]⟩
  refine ⟨⟨tree, commentTable, tokenTable⟩, ?_, rfl⟩
  simp only [document, hcomments, htree, hcommentTable, htokenTable]

/-- No token of the text is quoted with a carriage return, if none that the grammar reads is. -/
theorem hasQuotedReturn_of_mem_body {t : Text}
    (h : ∀ token ∈ (TokenStream.ofText t).tokens, token.hasQuotedReturn = false) {token : Token}
    (htoken : token ∈ Token.body t) : token.hasQuotedReturn = false := by
  by_cases htrivia : token.kind.isTrivia = true
  · have hkind : ∀ l, token.kind ≠ .literal l := by
      intro l hl
      simp [hl, Token.Kind.isTrivia] at htrivia
    simp [Token.hasQuotedReturn, hkind]
  · have hmem : token ∈ (Token.body t).filter fun token => !token.kind.isTrivia := by
      rw [List.mem_filter]
      exact ⟨htoken, by simpa using htrivia⟩
    exact h token (TokenStream.mem_tokens_of_mem_filter hmem)

/-- **A file read from the text makes a document**, whose leaves are the tokens of the text, laid
out as they are planned. -/
theorem exists_laid_document {file : File} (hparse : parse m.text = .ok file)
    (hreturn : ∀ token ∈ (TokenStream.ofText m.text).tokens, token.hasQuotedReturn = false)
    (hdots : ∀ e ∈ file.exprs, e.dotsBetweenArgs (TokenStream.ofText m.text).tokens = false) :
    ∃ doc comments stop, m.document file = .ok doc ∧
      listedSpans doc.tree.leaves = Token.spans (Token.body m.text) ∧
      m.Laid comments (some m.textStart) (file.planned ++ [⟨[.endOfFile], m.text.size, "", ""⟩])
        doc.tree.leaves stop := by
  obtain ⟨comments, hcomments, hall⟩ := exists_commentLeaves fun token => mem_comments (t := m.text)
  rw [← allComments_of_parse hparse] at hcomments
  have hkept := isSlice_of_commentLeaves hcomments
  have hslash : ∀ comment ∈ comments, comment.start < comment.stop ∧
      comment.value.toList.head? = some '/' := by
    intro comment hcomment
    obtain ⟨token, htoken, hleaf⟩ := Token.exists_of_mem_forall₂ hall hcomment
    obtain ⟨hbody, hkind⟩ := mem_comments htoken
    exact ⟨hleaf.start_lt_stop hbody hkind, hleaf.head?_value hbody hkind⟩
  -- what the file records, comments and implied tokens account for the text
  have haccounts := accounts_of_parse hparse hdots
  rw [← File.recorded_planned] at haccounts
  rw [TokenStream.comments_eq] at hall
  have hnone : ∀ comment ∈ ([] : List Node), comment.start < m.textStart := by simp
  obtain ⟨laid, stop, hlaid, hspans⟩ :=
    exists_laid (fun _ => hasQuotedReturn_of_mem_body hreturn) [] isBoundary_textStart
      (Token.tiles_body m.text) (fun _ htoken => htoken) (by simp) haccounts file.plain_planned hall
      hnone
  rw [List.nil_append] at hlaid
  -- laid out, they are realized one after the other
  have hcursor : (CommentCursor.start comments).toList = comments := rfl
  obtain ⟨tree, htree, hleaves⟩ :=
    exists_fileNode (fun leaf hleaf => (hkept leaf hleaf).1) hslash hlaid hcursor
  obtain ⟨doc, hdoc, rfl⟩ := exists_document hcomments htree
  refine ⟨doc, comments, stop, hdoc, ?_, hleaves.symm ▸ hlaid⟩
  rw [hleaves, hspans]
  rfl

/-- The leaves of the document of a file read from the text are the tokens of the text. -/
theorem exists_document_of_parse {file : File} (hparse : parse m.text = .ok file)
    (hreturn : ∀ token ∈ (TokenStream.ofText m.text).tokens, token.hasQuotedReturn = false)
    (hdots : ∀ e ∈ file.exprs, e.dotsBetweenArgs (TokenStream.ofText m.text).tokens = false) :
    ∃ doc, m.document file = .ok doc ∧
      listedSpans doc.tree.leaves = Token.spans (Token.body m.text) := by
  obtain ⟨doc, -, -, hdoc, hspans, -⟩ := exists_laid_document hparse hreturn hdots
  exact ⟨doc, hdoc, hspans⟩

end Mapping

/-- **A file read from a text is mapped, token for token.**  Let no quoted literal of the text hold a
carriage return, and let no call have three points between two of its arguments.  Then the mapping
makes a document, in either strictness, and the leaves of its tree other than comments and the end of
the file are the tokens of the text: the bytes of the one are, in order, the bytes of the other. -/
theorem mapFile_complete (path : String) (t : Text) (file : File) (strictness : Strictness)
    (hparse : parse t = .ok file)
    (hreturn : ∀ token ∈ (TokenStream.ofText t).tokens, token.hasQuotedReturn = false)
    (hdots : ∀ e ∈ file.exprs, e.dotsBetweenArgs (TokenStream.ofText t).tokens = false) :
    ∃ doc, mapFile ⟨path, t⟩ file strictness = .ok doc ∧
      (doc.tree.leaves.filter fun leaf => !leaf.hasTag .comment && !leaf.hasTag .endOfFile).map
          (fun leaf => (leaf.start, leaf.stop)) =
        ((TokenStream.ofText t).tokens.filter fun token =>
          !token.text.isEmpty && token.kind != .endOfFile).map
          fun token => (token.start, token.stop) := by
  obtain ⟨doc, hdoc, hspans⟩ :=
    Mapping.exists_document_of_parse (m := ⟨⟨path, t⟩, strictness⟩) hparse hreturn hdots
  refine ⟨doc, ?_, ?_⟩
  · rw [mapFile, if_pos (parse_eq_ok hparse).2.2]
    exact hdoc
  · have htokens : ((TokenStream.ofText t).tokens.filter fun token =>
        !token.text.isEmpty && token.kind != .endOfFile) =
        (Token.body t).filter fun token => !token.kind.isTrivia := by
      rw [← TokenStream.filter_tokens]
      refine List.filter_congr fun token htoken => ?_
      rcases TokenStream.mem_tokens htoken with ⟨hbody, -⟩ | ⟨-, hempty⟩ | rfl
      · simp [Token.kind_ne_endOfFile_of_mem_body hbody]
      · simp [hempty]
      · rfl
    rw [htokens]
    exact hspans

/-- A call whose last argument is followed by three points: every token is a leaf. -/
theorem mapFile_complete_call :
    ∃ file doc, parse "package p\nvar x = f(1, a[0]...)\n".toList = .ok file ∧
      mapFile ⟨"p.go", "package p\nvar x = f(1, a[0]...)\n".toList⟩ file .strict = .ok doc ∧
      (doc.tree.leaves.filter fun leaf => !leaf.hasTag .comment && !leaf.hasTag .endOfFile).map
          (fun leaf => (leaf.start, leaf.stop)) =
        [(0, 7), (8, 9), (10, 13), (14, 15), (16, 17), (18, 19), (19, 20), (20, 21), (21, 22),
          (23, 24), (24, 25), (25, 26), (26, 27), (27, 30), (30, 31)] := by
  obtain ⟨file, hparse, hdots⟩ :
      ∃ file, parse "package p\nvar x = f(1, a[0]...)\n".toList = .ok file ∧
        (file.exprs.all fun e => !e.dotsBetweenArgs
          (TokenStream.ofText "package p\nvar x = f(1, a[0]...)\n".toList).tokens) = true := by
    refine exists_ok_and_of_any ?_
    decide +kernel
  obtain ⟨doc, hdoc, hspans⟩ := mapFile_complete "p.go" _ file .strict hparse (by decide +kernel)
    (by simpa using hdots)
  refine ⟨file, doc, hparse, hdoc, ?_⟩
  rw [hspans]
  decide +kernel

end GoTree
