import Mathlib.Data.List.Sort
import GoTree.Proofs.Mapping.Placed

/-!
# Comments are kept

In a strict mapping of a file that was read from the text, the comments of the text are leaves of
the tree, each once and in order.  A slash is no blank and stands in no implied token, and recorded
tokens are found over their own bytes; so the leaf that holds the first byte of a comment can only be
the leaf of that comment.

## Main results

* `Mapping.mem_leaves_of_mem_comments`: every comment is a leaf of the tree
* `mapFile_comments`: the leaves and the table of comments, read off the tokens of the text
-/

namespace GoTree

namespace Token

/-- The leaves of comments stand where the comments do. -/
theorem map_span_of_forall₂ {t : Text} {tokens : List Token} {nodes : List Node}
    (h : List.Forall₂ (IsCommentLeaf t) tokens nodes) :
    nodes.map (fun node => (node.start, node.stop)) =
      tokens.map fun token => (token.start, token.commentStop) := by
  induction h with
  | nil => rfl
  | cons head _ ih => simp only [List.map_cons, head.start, head.stop, ih]

theorem exists_of_mem_forall₂ {t : Text} {tokens : List Token} {nodes : List Node} {node : Node}
    (h : List.Forall₂ (IsCommentLeaf t) tokens nodes) (hnode : node ∈ nodes) :
    ∃ token ∈ tokens, token.IsCommentLeaf t node := by
  induction h with
  | nil => simp at hnode
  | cons head _ ih =>
    rcases List.mem_cons.1 hnode with rfl | hnode
    · exact ⟨_, List.mem_cons_self .., head⟩
    · obtain ⟨token, htoken, hleaf⟩ := ih hnode
      exact ⟨token, List.mem_cons_of_mem _ htoken, hleaf⟩

/-- Only carriage returns stand between what is shown of a comment and its end. -/
theorem blankBetween_commentStop {t : Text} {token : Token} (hbody : token ∈ body t)
    (hkind : token.kind.isComment = true) : t.BlankBetween token.commentStop token.stop := by
  obtain ⟨returns, htext, hreturns, -⟩ := shown_of_isComment (proper_of_mem_body hbody).2 hkind
  have hslice := (tiles_body t).slice?_of_mem hbody
  rw [htext] at hslice
  refine ⟨returns, (Text.slice?_of_append hslice).2, ?_⟩
  intro c hc
  rw [hreturns c hc]
  decide

end Token

namespace Mapping

variable {m : Mapping} {file : File} {comments before : List Node} {last tree : Node}

/-- The comments of a text start one after the other. -/
theorem pairwise_comments
    (h : List.Forall₂ (Token.IsCommentLeaf m.text) (TokenStream.ofText m.text).comments comments) :
    comments.Pairwise fun a b => a.start < b.start := by
  have hmap : comments.map Node.start = (TokenStream.ofText m.text).comments.map Token.start := by
    simpa [Function.comp_def] using congrArg (List.map Prod.fst) (Token.map_span_of_forall₂ h)
  rw [← List.pairwise_map, hmap, List.pairwise_map]
  exact TokenStream.pairwise_start_comments m.text

/-- No implied token holds a slash. -/
theorem not_slash_mem_of_mem_impliedWords {word : String} (h : word ∈ impliedWords) :
    '/' ∉ word.toList := by
  revert word
  decide

/-- A recorded token is found over its own bytes. -/
theorem exists_token_of_expectLeaf (hparse : parse m.text = .ok file)
    (hreturn : ∀ token ∈ (TokenStream.ofText m.text).tokens, token.hasQuotedReturn = false)
    {planned : Plan.Leaf} {leaf : Node} (hplanned : planned ∈ file.planned)
    (hmade : m.expectLeaf planned = .ok (some leaf)) :
    ∃ token ∈ Token.body m.text, planned.recorded.Denotes token ∧ token.kind.isTrivia = false ∧
      leaf.start = token.start ∧ leaf.stop = token.stop := by
  obtain ⟨token, htoken, hdenotes⟩ := exists_denoted_of_planned hparse hplanned
  obtain ⟨hbody, htrivia⟩ := hdenotes.mem_body htoken
  obtain ⟨node, hnode, hstart, hstop⟩ :=
    expectLeaf_of_denotes hdenotes hbody (hreturn token htoken)
  obtain rfl : node = leaf := by
    rw [hmade] at hnode
    simpa using hnode.symm
  exact ⟨token, hbody, hdenotes, htrivia, hstart, hstop⟩

/-- **A leaf over the first byte of a comment is the leaf of the comment**, whatever its origin. -/
theorem Origin.eq_of_start_le (hstrict : m.strictness = .strict) (hparse : parse m.text = .ok file)
    (hreturn : ∀ token ∈ (TokenStream.ofText m.text).tokens, token.hasQuotedReturn = false)
    (hall : List.Forall₂ (Token.IsCommentLeaf m.text) (TokenStream.ofText m.text).comments comments)
    {leaf comment : Node} (horigin : m.Origin comments file.planned leaf)
    (hcomment : comment ∈ comments) (hle : leaf.start ≤ comment.start)
    (hlt : comment.start < leaf.stop) : leaf = comment := by
  obtain ⟨token, htoken, hleaf⟩ := Token.exists_of_mem_forall₂ hall hcomment
  obtain ⟨hbody, hkind⟩ := mem_comments htoken
  rw [hleaf.start] at hle hlt
  cases horigin with
  | comment mem =>
    -- comments that overlap are one token, and comments are told by where they start
    obtain ⟨other, hother, hotherLeaf⟩ := Token.exists_of_mem_forall₂ hall mem
    rw [hotherLeaf.start] at hle
    rw [hotherLeaf.stop] at hlt
    have hsame : other = token := Token.eq_of_mem_body (mem_comments hother).1 hbody hle
      (hlt.trans_le (Token.blankBetween_commentStop (mem_comments hother).1
        (mem_comments hother).2).le)
    have hstart : leaf.start = comment.start := by rw [hotherLeaf.start, hsame, hleaf.start]
    have hnodup : (comments.map Node.start).Nodup :=
      List.pairwise_map.2 ((pairwise_comments hall).imp Nat.ne_of_lt)
    exact List.inj_on_of_nodup_map hnodup mem hcomment hstart
  | piece made =>
    -- a comment starts with a slash, which no implied token contains
    have hword := not_slash_mem_of_mem_impliedWords (made.mem_impliedWords hstrict)
    obtain ⟨hslice, hhead⟩ := exists_slash hbody hkind
    exact absurd (Text.head_mem_of_slice? made.isSlice.1.slice? hle hlt hslice hhead) hword
  | planned mem made =>
    -- no token of a construct is a comment
    obtain ⟨other, hother, -, htrivia, hstart, hstop⟩ :=
      exists_token_of_expectLeaf hparse hreturn mem made
    rw [hstart] at hle
    rw [hstop] at hlt
    have hsame : other = token := Token.eq_of_mem_body hother hbody hle hlt
    rw [hsame, Token.Kind.isTrivia_of_isComment hkind] at htrivia
    simp at htrivia

/-- **Every comment is a leaf of the tree.** -/
theorem mem_leaves_of_mem_comments (hstrict : m.strictness = .strict)
    (hparse : parse m.text = .ok file)
    (hreturn : ∀ token ∈ (TokenStream.ofText m.text).tokens, token.hasQuotedReturn = false)
    (hall : List.Forall₂ (Token.IsCommentLeaf m.text) (TokenStream.ofText m.text).comments comments)
    (hcomments : ∀ comment ∈ comments, comment.IsSlice m.text)
    (hshape : m.Shape file comments before last tree) {comment : Node}
    (hcomment : comment ∈ comments) : comment ∈ before.flatMap Node.leaves := by
  obtain ⟨token, htoken, hleaf⟩ := Token.exists_of_mem_forall₂ hall hcomment
  obtain ⟨hbody, hkind⟩ := mem_comments htoken
  obtain ⟨hslice, hhead⟩ := exists_slash hbody hkind
  have hbounds := (Token.tiles_body m.text).le_of_mem hbody
  have hlt := Token.start_lt_stop_of_mem_body hbody
  -- the tree reaches over the comment, because only blanks stand before the tree
  have hstart : tree.start ≤ token.start := by
    rcases hshape.atFront hstrict with hzero | hblank
    · omega
    · by_contra hbefore
      have hle := hblank.blank_of_slice? hbounds.1 (Nat.not_le.1 hbefore) hslice hhead
      exact absurd hle (by decide)
  obtain ⟨leaf, hmem, hle, hlt'⟩ := (hshape.fills hcomments).exists_mem_of_slice? hstart
    (hlt.trans_le hbounds.2) hslice hhead (by decide)
  rw [hshape.leaves_eq, List.mem_append, List.mem_singleton] at hmem
  rw [← hleaf.start] at hle hlt'
  rcases hmem with hmem | rfl
  · have horigin := hshape.origin_of_mem hcomments hmem
    exact horigin.eq_of_start_le hstrict hparse hreturn hall hcomment hle hlt' ▸ hmem
  · -- the end of the file has no bytes
    rw [hshape.isEnd.start] at hle
    rw [hshape.isEnd.stop] at hlt'
    omega

/-- A leaf tagged as a comment is one of the comments. -/
theorem Origin.mem_comments {leaf : Node} (horigin : m.Origin comments file.planned leaf)
    (htag : leaf.hasTag .comment = true) : leaf ∈ comments := by
  cases horigin with
  | comment mem => exact mem
  | piece made =>
    have hplain := made.plain.1
    simp_all [Node.hasTag]
  | planned mem made =>
    have hplain := (plain_of_expectLeaf (file.plain_planned _ mem) made).2.1
    simp_all [Node.hasTag]

/-- **The leaves of the tree** start one after the other; all but the end of the file have bytes. -/
theorem Shape.pairwise_leaves (hcomments : m.commentLeaves file.allComments = .ok comments)
    (hshape : m.Shape file comments before last tree) :
    (before.flatMap Node.leaves).Pairwise (fun a b => a.start < b.start) ∧
      ∀ leaf ∈ before.flatMap Node.leaves, leaf.start < leaf.stop := by
  have hslices := fun leaf hleaf => (isSlice_of_commentLeaves hcomments leaf hleaf).1
  have hlt : ∀ leaf ∈ before.flatMap Node.leaves, leaf.start < leaf.stop := fun leaf hleaf =>
    ((hshape.origin_of_mem hslices hleaf).start_lt_stop hcomments).1
  refine ⟨?_, hlt⟩
  have hfills := hshape.fills hslices
  rw [hshape.leaves_eq] at hfills
  have hle : ∀ node ∈ before.flatMap Node.leaves ++ [last], node.start ≤ node.stop := by
    intro node hnode
    rcases List.mem_append.1 hnode with hnode | hnode
    · exact Nat.le_of_lt (hlt node hnode)
    · rw [List.mem_singleton.1 hnode, hshape.isEnd.start, hshape.isEnd.stop]
  refine (List.pairwise_append.1 (hfills.pairwise hle).2).1.imp_of_mem ?_
  intro a b ha _ hab
  exact (hlt a ha).trans_le hab

/-- **The leaves tagged as comments are the comments**, in order. -/
theorem filter_leaves_eq_comments (hstrict : m.strictness = .strict)
    (hparse : parse m.text = .ok file)
    (hreturn : ∀ token ∈ (TokenStream.ofText m.text).tokens, token.hasQuotedReturn = false)
    (hcomments : m.commentLeaves file.allComments = .ok comments)
    (hshape : m.Shape file comments before last tree) :
    (tree.leaves.filter fun leaf => leaf.hasTag .comment) = comments := by
  have hall := forall₂_comments hparse hcomments
  have hkept := isSlice_of_commentLeaves hcomments
  have hslices := fun leaf hleaf => (hkept leaf hleaf).1
  have horder := pairwise_comments hall
  have hend : last.hasTag .comment = false := by simp [Node.hasTag, hshape.isEnd.tags]
  rw [hshape.leaves_eq, List.filter_append, List.filter_singleton, hend, cond_false,
    List.append_nil]
  -- leaves and comments start one after the other, so it is enough that they have the same members
  have hleaves := (hshape.pairwise_leaves hcomments).1
  refine List.Perm.eq_of_pairwise ?_ (hleaves.filter _) horder ?_
  · intro a b _ _ hab hba
    exact absurd (hab.trans hba) (Nat.lt_irrefl _)
  · rw [List.perm_ext_iff_of_nodup]
    · intro node
      rw [List.mem_filter]
      constructor
      · rintro ⟨hmem, htag⟩
        exact (hshape.origin_of_mem hslices hmem).mem_comments htag
      · intro hmem
        exact ⟨mem_leaves_of_mem_comments hstrict hparse hreturn hall hslices hshape hmem,
          (hkept node hmem).2.2.1⟩
    · refine (hleaves.filter _).imp ?_
      rintro a _ hab rfl
      exact Nat.lt_irrefl _ hab
    · refine horder.imp ?_
      rintro a _ hab rfl
      exact Nat.lt_irrefl _ hab

theorem text_of_commentEntry {node : Node} {entry : CommentEntry}
    (h : m.commentEntry node = .ok entry) : entry.text = node.value := by
  unfold commentEntry at h
  split at h
  · obtain rfl := Except.ok.inj h
    unfold CommentEntry.ofText
    split <;> rfl
  · simp at h

/-- The table of comments lists the texts of its nodes. -/
theorem map_text_of_collect {nodes : List Node} {entries : List CommentEntry}
    (h : collect m.commentEntry nodes = .ok entries) :
    entries.map CommentEntry.text = nodes.map Node.value := by
  have hall := forall₂_of_collect h
  clear h
  induction hall with
  | nil => rfl
  | cons head _ ih => rw [List.map_cons, List.map_cons, text_of_commentEntry head, ih]

end Mapping

/-- **Comments are kept.**  Let a file be read from a text in which no quoted literal holds a
carriage return.  If a strict mapping makes a document, the leaves tagged as comments are the
comments of the text, each once and in order: each starts with its comment and stops with it, less
the carriage returns at the end of a line comment.  The table of comments lists the texts of these
leaves. -/
theorem mapFile_comments (path : String) (t : Text) (file : File) (doc : Document)
    (hparse : parse t = .ok file)
    (hreturn : ∀ token ∈ (TokenStream.ofText t).tokens, token.hasQuotedReturn = false)
    (h : mapFile ⟨path, t⟩ file .strict = .ok doc) :
    (doc.tree.leaves.filter fun leaf => leaf.hasTag .comment).map
        (fun leaf => (leaf.start, leaf.stop)) =
      (TokenStream.ofText t).comments.map (fun token => (token.start, token.commentStop)) ∧
    doc.comments.map CommentEntry.text =
      (doc.tree.leaves.filter fun leaf => leaf.hasTag .comment).map Node.value := by
  obtain ⟨comments, before, last, hcomments, hshape, htable, -⟩ := mapFile_eq_ok h
  have hleaves : (doc.tree.leaves.filter fun leaf => leaf.hasTag .comment) = comments :=
    Mapping.filter_leaves_eq_comments (m := ⟨⟨path, t⟩, .strict⟩) rfl hparse hreturn hcomments
      hshape
  have hall := Mapping.forall₂_comments (m := ⟨⟨path, t⟩, .strict⟩) hparse hcomments
  rw [hleaves]
  exact ⟨Token.map_span_of_forall₂ hall, Mapping.map_text_of_collect htable⟩

/-- Two comments after a package clause; the carriage return before the line break is left out. -/
theorem mapFile_comments_clause :
    ∃ file doc, parse "package p // a\r\n/* b */\n".toList = .ok file ∧
      mapFile ⟨"p.go", "package p // a\r\n/* b */\n".toList⟩ file .strict = .ok doc ∧
      (doc.tree.leaves.filter fun leaf => leaf.hasTag .comment).map
        (fun leaf => (leaf.start, leaf.stop)) = [(10, 14), (16, 23)] := by
  obtain ⟨file, hparse, hmap⟩ : ∃ file, parse "package p // a\r\n/* b */\n".toList = .ok file ∧
      (mapFile ⟨"p.go", "package p // a\r\n/* b */\n".toList⟩ file .strict).isOk = true := by
    refine exists_ok_and_of_any ?_
    decide +kernel
  obtain ⟨doc, hdoc⟩ := exists_ok_of_isOk hmap
  refine ⟨file, doc, hparse, hdoc, ?_⟩
  rw [(mapFile_comments _ _ file doc hparse (by decide +kernel) hdoc).1]
  decide +kernel

end GoTree
