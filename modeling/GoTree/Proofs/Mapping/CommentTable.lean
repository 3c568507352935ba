import GoTree.Proofs.Mapping.Placed
import GoTree.Proofs.Text.Position
import GoTree.Proofs.Token.LongestMatch

/-!
# The table of comments

An entry of the table of comments tells the text of a comment and its content, and the lines and
columns of both.  The content is found by taking delimiters off the text, and its columns by
arithmetic on the columns of the comment.  The two agree with the source: the delimiters of a comment
read from a text stand each on one line and never overlap.

## Main definitions

* `CommentEntry.Describes`: an entry that tells where a comment and its content stand

## Main results

* `Text.lineColumn?_of_slice?`: the position behind a stretch of a line
* `Token.text_of_blockComment`, `Token.shown_of_lineComment`: the delimiters of comments
* `Mapping.describes_of_commentEntry`: the entry of the leaf of a comment
* `mapFile_commentTable`: the table of comments of a file that was read from a text
-/

namespace GoTree

/-! ## Positions on a line -/

/-- **The position behind a stretch of a line** is as many columns further as the stretch has
characters.  Only the end of a text behind a carriage return counts as a new line. -/
theorem Text.lineColumn?_of_slice? {t x : Text} {start stop : Nat} {p : LineColumn}
    (h : t.slice? start stop = some x) (hne : x ≠ []) (hfeed : '\n' ∉ x)
    (hreturn : x.getLast? ≠ some '\r') (hp : t.lineColumn? start = some p) :
    t.lineColumn? stop = some ⟨p.line, p.column + x.length⟩ := by
  obtain ⟨before, rest, rfl, rfl, rfl⟩ := slice?_eq_some_iff.1 h
  have hstart : (before ++ x ++ rest).lineColumn? before.size =
      some (LineColumn.first.after before) := by
    rw [List.append_assoc, lineColumn?_append, if_neg (by simp [hne])]
  have hstop : (before ++ x ++ rest).lineColumn? (before ++ x).size =
      some (LineColumn.first.after (before ++ x)) := by
    rw [lineColumn?_append, if_neg]
    rintro ⟨rfl, hlast⟩
    rw [List.append_nil, List.getLast?_append_of_ne_nil _ hne] at hlast
    exact hreturn hlast
  obtain rfl : p = LineColumn.first.after before := Option.some.inj (hp.symm.trans hstart)
  rw [← Text.size_append, hstop, LineColumn.first_after, LineColumn.first_after,
    lastLine_append hfeed, List.count_append, List.count_eq_zero.2 hfeed, List.length_append,
    Nat.add_zero, Nat.add_assoc]

/-! ## The delimiters of comments -/

namespace Token

namespace Lexeme

/-- The end of a block comment is its closing. -/
theorem exists_take_measureComment {t : Text} (h : (measureComment t).1 = .blockComment) :
    ∃ content, t.take (measureComment t).2 = content ++ ['*', '/'] := by
  induction t with
  | nil => simp [measureComment] at h
  | cons c t ih =>
    rw [measureComment_cons] at h ⊢
    split
    · rename_i hclose
      obtain ⟨rest, rfl⟩ := List.head?_eq_some_iff.1 hclose.2
      exact ⟨[], by simp [hclose.1]⟩
    · rename_i hclose
      rw [if_neg hclose] at h
      obtain ⟨content, hcontent⟩ := ih h
      exact ⟨c :: content, by rw [List.take_succ_cons, hcontent, List.cons_append]⟩

theorem exists_of_measure_blockComment {atStart : Bool} {t : Text}
    (h : (measure atStart '/' t).1 = .blockComment) :
    ∃ content, '/' :: t.take (measure atStart '/' t).2 =
      '/' :: '*' :: (content ++ ['*', '/']) := by
  rw [measure_slash] at h ⊢
  split at h
  · simp at h
  rename_i hline
  rw [if_neg hline]
  split at h
  · rename_i hblock
    rw [if_pos hblock]
    obtain ⟨rest, rfl⟩ := List.head?_eq_some_iff.1 hblock
    rw [List.drop_one, List.tail_cons] at h ⊢
    obtain ⟨content, hcontent⟩ := exists_take_measureComment h
    exact ⟨content, by rw [List.take_succ_cons, hcontent]⟩
  · unfold measureSymbol at h
    split at h <;> simp at h

end Lexeme

variable {t : Text} {token : Token}

/-- **A block comment** has an opening and a closing, one after the other. -/
theorem text_of_blockComment (h : token ∈ body t) (hkind : token.kind = .blockComment) :
    ∃ content, token.text = '/' :: '*' :: (content ++ ['*', '/']) := by
  obtain ⟨rest, hrest, -⟩ : ∃ rest, token.text = '/' :: rest ∧ token.text.getLast? = some '/' := by
    simpa [Proper, Lexeme.Proper, hkind] using (proper_of_mem_body h).2
  have hmem : token ∈ ofText t := by
    rw [ofText_eq]
    split
    · exact List.mem_cons_of_mem _ h
    · exact h
  obtain ⟨front, c, tail, -, -, hmeasured, htext⟩ := exists_measured_of_mem_ofText hmem
  obtain rfl : c = '/' := (List.cons.inj (htext.symm.trans hrest)).1
  rw [hkind] at hmeasured
  rw [htext]
  exact Lexeme.exists_of_measure_blockComment hmeasured.symm

theorem shown_of_blockComment (hkind : token.kind = .blockComment) : token.shown = token.text := by
  simp [shown, hkind]

/-- **What is shown of a line comment** has both slashes. -/
theorem shown_of_lineComment (h : token ∈ body t) (hkind : token.kind = .lineComment) :
    ∃ content, token.shown = '/' :: '/' :: content := by
  have hproper := (proper_of_mem_body h).2
  have hcomment : token.kind.isComment = true := by
    rw [hkind]
    rfl
  obtain ⟨returns, htext, hreturns, hhead, -⟩ := shown_of_isComment hproper hcomment
  obtain ⟨rest, hrest⟩ : ∃ rest, token.text = '/' :: '/' :: rest := by
    simpa [Proper, Lexeme.Proper, hkind] using hproper
  obtain ⟨shown, hshown⟩ := List.head?_eq_some_iff.1 hhead
  rw [hrest, hshown, List.cons_append, List.cons.injEq] at htext
  cases shown with
  | nil =>
    -- the second slash is no carriage return
    have hslash : returns = '/' :: rest := htext.2.symm
    exact absurd (hreturns '/' (hslash ▸ List.mem_cons_self)) (by decide)
  | cons c content =>
    obtain rfl : '/' = c := (List.cons.inj htext.2).1
    exact ⟨content, hshown⟩

end Token

/-! ## Entries -/

/-- **An entry that describes the leaf of a comment**: its text and where it stands, and the same of
what stands between its delimiters.  A line comment has no delimiter at its end. -/
structure CommentEntry.Describes (t : Text) (token : Token) (leaf : Node) (entry : CommentEntry) :
    Prop where
  isLeaf : token.IsCommentLeaf t leaf
  text : t.slice? leaf.start leaf.stop = some entry.text.toList
  start : t.lineColumn? leaf.start = some ⟨entry.range.startLine, entry.range.startColumn⟩
  stop : t.lineColumn? leaf.stop = some ⟨entry.range.endLine, entry.range.endColumn⟩
  contentStart : t.lineColumn? (leaf.start + 2) =
    some ⟨entry.contentRange.startLine, entry.contentRange.startColumn⟩
  line : token.kind = .lineComment →
    t.slice? (leaf.start + 2) leaf.stop = some entry.contentText.toList ∧
    t.lineColumn? leaf.stop = some ⟨entry.contentRange.endLine, entry.contentRange.endColumn⟩
  block : token.kind = .blockComment → leaf.start + 4 ≤ leaf.stop ∧
    t.slice? (leaf.start + 2) (leaf.stop - 2) = some entry.contentText.toList ∧
    t.lineColumn? (leaf.stop - 2) =
      some ⟨entry.contentRange.endLine, entry.contentRange.endColumn⟩ ∧
    entry.contentRange.endColumn + 2 = entry.range.endColumn

namespace CommentEntry

variable {text : String} {content : Text}

/-- A line comment loses its two slashes. -/
theorem ofText_line (h : text.toList = '/' :: '/' :: content) (range : LineRange) :
    ofText text range = ⟨text, String.ofList content, range,
      { range with startColumn := range.startColumn + 2 }⟩ := by
  simp [ofText, h]

/-- A block comment loses its opening and its closing. -/
theorem ofText_block (h : text.toList = '/' :: '*' :: (content ++ ['*', '/'])) (range : LineRange) :
    ofText text range = ⟨text, String.ofList content, range,
      { range with startColumn := range.startColumn + 2, endColumn := range.endColumn - 2 }⟩ := by
  have hclosing : dropClosing (content ++ ['*', '/']) = content := by
    have hsuffix : ['*', '/'].isSuffixOf (content ++ ['*', '/']) = true :=
      List.isSuffixOf_iff_suffix.2 (List.suffix_append _ _)
    rw [dropClosing, if_pos hsuffix]
    simp
  simp [ofText, h, dropOpening, hclosing]

end CommentEntry

namespace Mapping

variable {m : Mapping} {token : Token} {leaf : Node} {entry : CommentEntry}

theorem commentEntry_eq_ok (h : m.commentEntry leaf = .ok entry) :
    ∃ range : LineRange, entry = .ofText leaf.value range ∧
      m.text.lineColumn? leaf.start = some ⟨range.startLine, range.startColumn⟩ ∧
      m.text.lineColumn? leaf.stop = some ⟨range.endLine, range.endColumn⟩ := by
  unfold commentEntry lineRange at h
  cases hfirst : m.text.lineColumn? leaf.start with
  | none => simp [hfirst] at h
  | some first =>
    cases hlast : m.text.lineColumn? leaf.stop with
    | none => simp [hfirst, hlast] at h
    | some last =>
      obtain rfl : _ = entry := by simpa [hfirst, hlast] using h
      exact ⟨_, rfl, rfl, rfl⟩

/-- The leaf of a comment holds what is shown of it. -/
theorem value_of_isCommentLeaf (htoken : token ∈ Token.body m.text)
    (hkind : token.kind.isComment = true) (hleaf : token.IsCommentLeaf m.text leaf) :
    leaf.value.toList = token.shown := by
  obtain ⟨returns, htext, -⟩ :=
    Token.shown_of_isComment (Token.proper_of_mem_body htoken).2 hkind
  have hslice := (Token.tiles_body m.text).slice?_of_mem htoken
  rw [htext] at hslice
  have hshown := (Text.slice?_of_append hslice).1
  have hvalue := hleaf.slice.slice?
  rw [hleaf.start, hleaf.stop, Token.commentStop, hshown] at hvalue
  exact (Option.some.inj hvalue).symm

/-- **The entry of the leaf of a comment** describes it. -/
theorem describes_of_commentEntry (htoken : token ∈ Token.body m.text)
    (hkind : token.kind.isComment = true) (hleaf : token.IsCommentLeaf m.text leaf)
    (hentry : m.commentEntry leaf = .ok entry) : entry.Describes m.text token leaf := by
  obtain ⟨range, rfl, hstart, hstop⟩ := commentEntry_eq_ok hentry
  have hvalue := value_of_isCommentLeaf htoken hkind hleaf
  have hslice := hleaf.slice.slice?
  obtain hline | hblock : token.kind = .lineComment ∨ token.kind = .blockComment := by
    cases hk : token.kind <;> simp_all [Token.Kind.isComment]
  · obtain ⟨content, hcontent⟩ := Token.shown_of_lineComment htoken hline
    rw [hcontent] at hvalue
    rw [CommentEntry.ofText_line hvalue]
    -- the slashes stand on one line
    have hparts : m.text.slice? leaf.start leaf.stop = some (['/', '/'] ++ content) := by
      rw [hslice, hvalue]
      rfl
    obtain ⟨hopening, hrest⟩ := Text.slice?_of_append hparts
    exact {
      isLeaf := hleaf
      text := hslice
      start := hstart
      stop := hstop
      contentStart := Text.lineColumn?_of_slice? hopening (by simp) (by decide) (by decide) hstart
      line := fun _ => ⟨by rw [String.toList_ofList]; exact hrest, hstop⟩
      block := fun h => by simp [hline] at h }
  · obtain ⟨content, hcontent⟩ := Token.text_of_blockComment htoken hblock
    rw [Token.shown_of_blockComment hblock, hcontent] at hvalue
    rw [CommentEntry.ofText_block hvalue]
    have hparts : m.text.slice? leaf.start leaf.stop =
        some (['/', '*'] ++ (content ++ ['*', '/'])) := by
      rw [hslice, hvalue]
      rfl
    obtain ⟨hopening, hrest⟩ := Text.slice?_of_append hparts
    obtain ⟨hinner, hclosing⟩ := Text.slice?_of_append hrest
    have hopen : leaf.start + Text.size ['/', '*'] = leaf.start + 2 := rfl
    have hclose : leaf.start + 2 + Text.size content + 2 = leaf.stop := by
      obtain ⟨-, -, -, -, hsize⟩ := Text.slice?_eq_some_iff.1 hclosing
      exact hsize
    have hbefore : leaf.start + 2 + Text.size content = leaf.stop - 2 := by omega
    rw [hopen, hbefore] at hinner hclosing
    -- the closing stands on one line too, so its start is two columns before its end
    obtain ⟨p, hp⟩ : ∃ p, m.text.lineColumn? (leaf.stop - 2) = some p :=
      Option.isSome_iff_exists.1 (Text.isSome_lineColumn?.2 (Text.isBoundary_of_slice? hclosing).1)
    have hend := Text.lineColumn?_of_slice? hclosing (by simp) (by decide) (by decide) hp
    obtain ⟨hlineEnd, hcolumnEnd⟩ : range.endLine = p.line ∧ range.endColumn = p.column + 2 := by
      simpa using hstop.symm.trans hend
    exact {
      isLeaf := hleaf
      text := hslice
      start := hstart
      stop := hstop
      contentStart := Text.lineColumn?_of_slice? hopening (by simp) (by decide) (by decide) hstart
      line := fun h => by simp [hblock] at h
      block := fun _ => by
        refine ⟨by omega, ?_, ?_, ?_⟩
        · rw [String.toList_ofList]
          exact hinner
        · rw [hp, hlineEnd, hcolumnEnd]
          rfl
        · simp only [hcolumnEnd]
          omega }

/-- **The table of comments** describes the leaves of the comments, one after the other. -/
theorem describes_of_collect {tokens : List Token} {leaves : List Node}
    {entries : List CommentEntry}
    (htokens : ∀ token ∈ tokens, token ∈ Token.body m.text ∧ token.kind.isComment = true)
    (hleaves : List.Forall₂ (Token.IsCommentLeaf m.text) tokens leaves)
    (hentries : collect m.commentEntry leaves = .ok entries) :
    entries.length = tokens.length ∧ ∀ (i : Nat) (entry : CommentEntry), entries[i]? = some entry →
      ∃ token leaf, tokens[i]? = some token ∧ leaves[i]? = some leaf ∧
        entry.Describes m.text token leaf := by
  have hall := forall₂_of_collect hentries
  refine ⟨(hleaves.length_eq.trans hall.length_eq).symm, fun i entry hentry => ?_⟩
  obtain ⟨hi, rfl⟩ := List.getElem?_eq_some_iff.1 hentry
  have hileaves : i < leaves.length := hall.length_eq ▸ hi
  have hitokens : i < tokens.length := hleaves.length_eq ▸ hileaves
  refine ⟨tokens[i], leaves[i], List.getElem?_eq_getElem hitokens,
    List.getElem?_eq_getElem hileaves, ?_⟩
  obtain ⟨htoken, hkind⟩ := htokens _ (List.getElem_mem hitokens)
  exact describes_of_commentEntry htoken hkind (hleaves.get hitokens hileaves)
    (hall.get hileaves hi)

end Mapping

/-- **The table of comments tells what stands in the source.**  If a file that was read from a text is
mapped to a document, the table has one entry for each comment of the text, in order.  It tells the
bytes of the leaf that the mapping made for the comment, and the lines and columns of its start and
its stop; and it tells the same of what stands between its delimiters. -/
theorem mapFile_commentTable (path : String) (t : Text) (file : File) (strictness : Strictness)
    (doc : Document) (hparse : parse t = .ok file)
    (h : mapFile ⟨path, t⟩ file strictness = .ok doc) :
    ∃ leaves, Mapping.commentLeaves ⟨⟨path, t⟩, strictness⟩ file.allComments = .ok leaves ∧
      doc.comments.length = (TokenStream.ofText t).comments.length ∧
      ∀ (i : Nat) (entry : CommentEntry), doc.comments[i]? = some entry →
        ∃ token leaf, (TokenStream.ofText t).comments[i]? = some token ∧ leaves[i]? = some leaf ∧
          entry.Describes t token leaf := by
  obtain ⟨leaves, hleaves, -, htable, -⟩ := mapFile_steps h
  have hall := Mapping.forall₂_comments (m := ⟨⟨path, t⟩, strictness⟩) hparse hleaves
  have hdescribes := Mapping.describes_of_collect (m := ⟨⟨path, t⟩, strictness⟩)
    (fun token => Mapping.mem_comments (t := t)) hall htable
  exact ⟨leaves, hleaves, hdescribes⟩

/-- A line comment before a carriage return, a block comment over two lines, and an empty comment
before a carriage return that ends the text. -/
theorem mapFile_commentTable_return :
    ∃ t file doc, t = "package p // a\r\n/* b\nc */ //\r".toList ∧ parse t = .ok file ∧
      mapFile ⟨"p.go", t⟩ file .strict = .ok doc ∧
      (∃ leaves, Mapping.commentLeaves ⟨⟨"p.go", t⟩, .strict⟩ file.allComments = .ok leaves ∧
        doc.comments.length = (TokenStream.ofText t).comments.length ∧
        ∀ (i : Nat) (entry : CommentEntry), doc.comments[i]? = some entry →
          ∃ token leaf, (TokenStream.ofText t).comments[i]? = some token ∧
            leaves[i]? = some leaf ∧ entry.Describes t token leaf) ∧
      doc.comments.map (fun entry => (entry.contentText, entry.contentRange)) =
        [(" a", ⟨1, 13, 1, 15⟩), (" b\nc ", ⟨2, 3, 3, 3⟩), ("", ⟨3, 8, 3, 8⟩)] := by
  generalize ht : "package p // a\r\n/* b\nc */ //\r".toList = t
  obtain ⟨file, hparse, hmap⟩ : ∃ file, parse t = .ok file ∧
      ((mapFile ⟨"p.go", t⟩ file .strict).toOption.any fun doc =>
        doc.comments.map (fun entry => (entry.contentText, entry.contentRange)) ==
          [(" a", ⟨1, 13, 1, 15⟩), (" b\nc ", ⟨2, 3, 3, 3⟩), ("", ⟨3, 8, 3, 8⟩)]) = true := by
    subst ht
    refine exists_ok_and_of_any ?_
    decide +kernel
  obtain ⟨doc, hdoc, hcontents⟩ := exists_ok_and_of_any hmap
  exact ⟨t, file, doc, rfl, hparse, hdoc, mapFile_commentTable "p.go" t file .strict doc hparse hdoc,
    by simpa using hcontents⟩

end GoTree
