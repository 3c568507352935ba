import GoTree.Proofs.Grammar.Keywords
import GoTree.Proofs.Mapping.Comments
import GoTree.Proofs.Mapping.Complete

/-!
# The table of tokens

The table of tokens of a document is read off the tags of the leaves of its tree, and these come from
the construct in which a token was planned, or from the gap it stood in.  For a file read from the
text they agree with the kinds of its tokens: a token that the file records is planned with the class
of its kind, and one that fills a gap has none.

## Main definitions

* `Token.ListedAs`: the entry of a token

## Main results

* `Mapping.ofNode_of_recorded`, `Mapping.ofNode_of_not_recorded`: the class of a leaf over a token
* `mapFile_tokens`: the table of tokens, read off the tokens of the text
-/

namespace GoTree

/-- **The entry of a token:** its characters, the lines and columns of its start and its end, and its
class.  String literals and keywords are listed as such, but for keywords that the file implies. -/
structure Token.ListedAs (t : Text) (file : File) (token : Token) (entry : TokenEntry) : Prop where
  text : entry.text = String.ofList token.text
  start : t.lineColumn? token.start = some ⟨entry.range.startLine, entry.range.startColumn⟩
  stop : t.lineColumn? token.stop = some ⟨entry.range.endLine, entry.range.endColumn⟩
  string : entry.type = .stringLiteral ↔ token.kind = .literal .string
  keyword : entry.type = .keyword ↔ (∃ word, token.kind = .keyword word) ∧
    ¬ file.ImpliesKeyword (TokenStream.ofText t).tokens token
  implied : file.ImpliesKeyword (TokenStream.ofText t).tokens token → entry.type = .other

/-! ### Classes of kinds -/

namespace Token.Kind

variable {kind : Token.Kind}

theorem tokenClass_eq_keyword_iff : kind.tokenClass = .keyword ↔ ∃ word, kind = .keyword word := by
  cases kind with
  | literal l => cases l <;> simp [tokenClass, Literal.tokenClass]
  | _ => simp [tokenClass]

theorem tokenClass_eq_stringLiteral_iff :
    kind.tokenClass = .stringLiteral ↔ kind = .literal .string := by
  cases kind with
  | literal l => cases l <;> simp [tokenClass, Literal.tokenClass]
  | _ => simp [tokenClass]

end Token.Kind

/-- A token is accounted for when it is implied or recorded. -/
theorem Accounts.isImplied_or_recorded {tokens : List Token} {recorded : List Recorded}
    (h : Accounts tokens recorded) :
    ∀ token ∈ tokens, token.kind.IsImplied ∨ ∃ r ∈ recorded, r.Denotes token := by
  induction h with
  | nil => simp
  | implied kind _ ih => exact List.forall_mem_cons.2 ⟨.inl kind, ih⟩
  | recorded denotes _ ih =>
    refine List.forall_mem_cons.2 ⟨.inr ⟨_, List.mem_cons_self, denotes⟩, fun token htoken => ?_⟩
    refine (ih token htoken).imp_right ?_
    rintro ⟨r, hr, hdenotes⟩
    exact ⟨r, List.mem_cons_of_mem _ hr, hdenotes⟩

namespace Mapping

variable {m : Mapping} {file : File} {comments before : List Node} {last tree leaf : Node}
  {token : Token}

/-! ### Classes of leaves -/

/-- The tokens of gaps are of no class. -/
theorem IsPiece.ofNode_eq (h : m.IsPiece leaf) : TokenClass.ofNode leaf = .other := by
  obtain ⟨piece, hpiece, -⟩ := h
  obtain ⟨tags, start, stop, hleaf, htags⟩ := leafAt_of_pieceLeaf hpiece
  obtain ⟨value, p, -, -, -, rfl⟩ := leafAt_eq_ok_some hleaf
  rcases htags with rfl | rfl <;> rfl

/-- A planned token is of the class it is planned with. -/
theorem ofNode_of_expectLeaf {planned : Plan.Leaf} (h : m.expectLeaf planned = .ok (some leaf)) :
    TokenClass.ofNode leaf = planned.recorded.type := by
  obtain ⟨value, p, -, -, -, rfl⟩ := leafAt_eq_ok_some (expect_eq_ok_some h).1
  exact TokenClass.ofNode_eq _

/-- A listed leaf stands before the end of the file. -/
theorem Shape.mem_of_isListed (hshape : m.Shape file comments before last tree)
    (hleaf : leaf ∈ tree.leaves) (hlisted : isListed leaf = true) :
    leaf ∈ before.flatMap Node.leaves := by
  rw [hshape.leaves_eq, List.mem_append, List.mem_singleton] at hleaf
  refine hleaf.resolve_right ?_
  rintro rfl
  simp [isListed, Node.hasTag, hshape.isEnd.tags] at hlisted

/-- **Leaves before the end of the file** are told apart by where they start. -/
theorem Shape.eq_of_start_eq (hshape : m.Shape file comments before last tree)
    (hcomments : m.commentLeaves file.allComments = .ok comments) {other : Node}
    (hleaf : leaf ∈ before.flatMap Node.leaves) (hother : other ∈ before.flatMap Node.leaves)
    (hstart : leaf.start = other.start) : leaf = other := by
  have hnodup : ((before.flatMap Node.leaves).map Node.start).Nodup :=
    List.pairwise_map.2 ((hshape.pairwise_leaves hcomments).1.imp Nat.ne_of_lt)
  exact List.inj_on_of_nodup_map hnodup hleaf hother hstart

/-! ### Entries of leaves -/

theorem tokenEntry_eq_ok {entry : TokenEntry} (h : m.tokenEntry leaf = .ok entry) :
    entry.text = leaf.value ∧ entry.type = .ofNode leaf ∧
      m.text.lineColumn? leaf.start = some ⟨entry.range.startLine, entry.range.startColumn⟩ ∧
      m.text.lineColumn? leaf.stop = some ⟨entry.range.endLine, entry.range.endColumn⟩ := by
  unfold tokenEntry lineRange at h
  cases hfirst : m.text.lineColumn? leaf.start with
  | none => simp [hfirst] at h
  | some first =>
    cases hlast : m.text.lineColumn? leaf.stop with
    | none => simp [hfirst, hlast] at h
    | some last =>
      obtain rfl : _ = entry := by simpa [hfirst, hlast] using h
      exact ⟨rfl, rfl, rfl, rfl⟩

/-- **Tokens, the leaves over their bytes and the entries of these** stand side by side. -/
theorem forall₂_of_spans {tokens : List Token} {leaves : List Node} {entries : List TokenEntry}
    {listedAs : Token → TokenEntry → Prop}
    (hspans : leaves.map (fun leaf => (leaf.start, leaf.stop)) =
      tokens.map fun token => (token.start, token.stop))
    (hentries : List.Forall₂ (fun leaf entry => m.tokenEntry leaf = .ok entry) leaves entries)
    (h : ∀ token ∈ tokens, ∀ leaf ∈ leaves, leaf.start = token.start → leaf.stop = token.stop →
      ∀ entry, m.tokenEntry leaf = .ok entry → listedAs token entry) :
    List.Forall₂ listedAs tokens entries := by
  induction hentries generalizing tokens with
  | nil =>
    obtain rfl : tokens = [] := by simpa using hspans.symm
    exact .nil
  | @cons leaf entry leaves entries head _ ih =>
    cases tokens with
    | nil => cases hspans
    | cons token tokens =>
      obtain ⟨hspan, hrest⟩ := List.cons.inj hspans
      obtain ⟨hstart, hstop⟩ := Prod.mk.inj hspan
      refine .cons (h token List.mem_cons_self leaf List.mem_cons_self hstart hstop entry head)
        (ih hrest ?_)
      intro token htoken leaf hleaf
      exact h token (List.mem_cons_of_mem _ htoken) leaf (List.mem_cons_of_mem _ hleaf)

/-! ### Leaves over tokens -/

section

variable (hparse : parse m.text = .ok file)
  (hreturn : ∀ token ∈ (TokenStream.ofText m.text).tokens, token.hasQuotedReturn = false)
  (hcomments : m.commentLeaves file.allComments = .ok comments)
  (hshape : m.Shape file comments before last tree)

include hparse hreturn hcomments hshape

/-- **The leaf over a token that is not recorded** fills a gap, and is of no class. -/
theorem ofNode_of_not_recorded (htoken : token ∈ Token.body m.text)
    (hnone : ∀ r ∈ file.recorded, ¬ r.Denotes token) (hleaf : leaf ∈ tree.leaves)
    (hlisted : isListed leaf = true) (hstart : leaf.start = token.start) :
    TokenClass.ofNode leaf = .other := by
  have hslices := fun leaf hleaf => (isSlice_of_commentLeaves hcomments leaf hleaf).1
  -- a comment is not listed, and a planned leaf over this token would make it recorded
  cases hshape.origin_of_mem hslices (hshape.mem_of_isListed hleaf hlisted) with
  | comment mem =>
    have htag := (isSlice_of_commentLeaves hcomments leaf mem).2.2.1
    simp [isListed, htag] at hlisted
  | piece made => exact made.ofNode_eq
  | planned mem made =>
    obtain ⟨other, hother, hdenotes, -, hotherStart, -⟩ :=
      exists_token_of_expectLeaf hparse hreturn mem made
    obtain rfl : other = token :=
      Token.eq_of_start_eq hother htoken (hotherStart.symm.trans hstart)
    refine absurd hdenotes (hnone _ ?_)
    rw [← File.recorded_planned]
    exact List.mem_map_of_mem mem

variable (hfound : ∀ planned ∈ file.planned,
  ∃ node ∈ tree.leaves, m.expectLeaf planned = .ok (some node))

include hfound

omit hparse in
/-- **The leaf over a recorded token** is of the class of the token. -/
theorem ofNode_of_recorded {r : Recorded}
    (htoken : token ∈ (TokenStream.ofText m.text).tokens) (hr : r ∈ file.recorded)
    (hdenotes : r.Denotes token) (hleaf : leaf ∈ tree.leaves) (hlisted : isListed leaf = true)
    (hstart : leaf.start = token.start) : TokenClass.ofNode leaf = token.kind.tokenClass := by
  rw [← File.recorded_planned] at hr
  obtain ⟨planned, hplanned, rfl⟩ := List.mem_map.1 hr
  obtain ⟨node, hnode, hmade⟩ := hfound planned hplanned
  obtain ⟨node', hmade', hstart', -⟩ :=
    expectLeaf_of_denotes hdenotes (hdenotes.mem_body htoken).1 (hreturn token htoken)
  obtain rfl : node' = node := by simpa [hmade] using hmade'.symm
  -- the planned token is found over the same bytes, so it is this leaf
  have hplain := (plain_of_expectLeaf (file.plain_planned _ hplanned) hmade).2
  have hnodeListed : isListed node' = true := by
    simpa [isListed, Node.hasTag, Tag.Plain] using hplain
  obtain rfl : leaf = node' :=
    hshape.eq_of_start_eq hcomments (hshape.mem_of_isListed hleaf hlisted)
      (hshape.mem_of_isListed hnode hnodeListed) (hstart.trans hstart'.symm)
  rw [ofNode_of_expectLeaf hmade, hdenotes.type]

variable (hdots : ∀ e ∈ file.exprs, e.dotsBetweenArgs (TokenStream.ofText m.text).tokens = false)

include hdots

/-- **The leaf over a token** is of the class of the token if the file records it; a token that is
not recorded is implied, and of no class. -/
theorem ofNode_cases
    (htoken : token ∈ (Token.body m.text).filter fun token => !token.kind.isTrivia)
    (hleaf : leaf ∈ tree.leaves) (hlisted : isListed leaf = true)
    (hstart : leaf.start = token.start) :
    (∃ r ∈ file.recorded, r.Denotes token) ∧ TokenClass.ofNode leaf = token.kind.tokenClass ∨
      (¬ ∃ r ∈ file.recorded, r.Denotes token) ∧ token.kind.IsImplied ∧
        TokenClass.ofNode leaf = .other := by
  by_cases hrecorded : ∃ r ∈ file.recorded, r.Denotes token
  · obtain ⟨r, hr, hdenotes⟩ := hrecorded
    have hmem := TokenStream.mem_tokens_of_mem_filter htoken
    exact .inl ⟨⟨r, hr, hdenotes⟩,
      ofNode_of_recorded hreturn hcomments hshape hfound hmem hr hdenotes hleaf hlisted hstart⟩
  · have himplied := ((accounts_of_parse hparse hdots).isImplied_or_recorded token
      htoken).resolve_right hrecorded
    refine .inr ⟨hrecorded, himplied, ?_⟩
    exact ofNode_of_not_recorded hparse hreturn hcomments hshape (List.mem_of_mem_filter htoken)
      (fun r hr hdenotes => hrecorded ⟨r, hr, hdenotes⟩) hleaf hlisted hstart

/-- **The entry of the leaf over a token** is the entry of the token. -/
theorem listedAs_of_leaf
    (htoken : token ∈ (Token.body m.text).filter fun token => !token.kind.isTrivia)
    (hleaf : leaf ∈ tree.leaves) (hlisted : isListed leaf = true)
    (hstart : leaf.start = token.start) (hstop : leaf.stop = token.stop) {entry : TokenEntry}
    (hentry : m.tokenEntry leaf = .ok entry) : token.ListedAs m.text file entry := by
  obtain ⟨htext, htype, hfirst, hlast⟩ := tokenEntry_eq_ok hentry
  have hmem := TokenStream.mem_tokens_of_mem_filter htoken
  -- the leaf holds the characters of the token
  have hslices := fun leaf hleaf => (isSlice_of_commentLeaves hcomments leaf hleaf).1
  have horigin := hshape.origin_of_mem hslices (hshape.mem_of_isListed hleaf hlisted)
  have hslice := (horigin.isSlice hslices).slice?
  rw [hstart, hstop, TokenStream.slice?_of_mem_tokens hmem, Option.some_inj] at hslice
  rw [hstart] at hfirst
  rw [hstop] at hlast
  have hchars : entry.text = String.ofList token.text := by
    rw [htext, hslice, String.ofList_toList]
  rcases ofNode_cases hparse hreturn hcomments hshape hfound hdots htoken hleaf hlisted hstart with
    ⟨hrecorded, hclass⟩ | ⟨hrecorded, himplied, hclass⟩
  · rw [← htype] at hclass
    have hnot : ¬ file.ImpliesKeyword (TokenStream.ofText m.text).tokens token := by
      intro himplied
      obtain ⟨word, hkind⟩ := himplied.exists_keyword
      exact (recorded_iff_of_parse hparse hmem hkind).1 hrecorded himplied
    refine ⟨hchars, hfirst, hlast, ?_, ?_, fun himplied => absurd himplied hnot⟩
    · rw [hclass, Token.Kind.tokenClass_eq_stringLiteral_iff]
    · rw [hclass, Token.Kind.tokenClass_eq_keyword_iff, and_iff_left hnot]
  · rw [← htype] at hclass
    refine ⟨hchars, hfirst, hlast, ?_, ?_, fun _ => hclass⟩
    · rw [hclass]
      refine ⟨nofun, fun hkind => ?_⟩
      -- a string literal is never implied
      rw [hkind] at himplied
      exact absurd himplied (by decide)
    · rw [hclass]
      refine ⟨nofun, ?_⟩
      rintro ⟨⟨word, hkind⟩, hnot⟩
      exact absurd ((recorded_iff_of_parse hparse hmem hkind).2 hnot) hrecorded

/-- **The entries of the leaves** of a tree are the entries of the tokens of its text. -/
theorem forall₂_listedAs
    (hspans : listedSpans tree.leaves = Token.spans (Token.body m.text)) {entries : List TokenEntry}
    (htable : collect m.tokenEntry (tree.leaves.filter isListed) = .ok entries) :
    List.Forall₂ (Token.ListedAs m.text file)
      ((TokenStream.ofText m.text).tokens.filter fun token => !token.text.isEmpty) entries := by
  rw [TokenStream.filter_tokens]
  refine forall₂_of_spans hspans (forall₂_of_collect htable) ?_
  intro token htoken leaf hleaf hstart hstop entry hentry
  obtain ⟨hleaf, hlisted⟩ := List.mem_filter.1 hleaf
  exact listedAs_of_leaf hparse hreturn hcomments hshape hfound hdots htoken hleaf hlisted hstart
    hstop hentry

end

end Mapping

/-- **The table of tokens agrees with the tokens of the text.**  Let a file be read from a text in
which no quoted literal holds a carriage return and no call has three points between two of its
arguments.  If a strict mapping makes a document, its table of tokens has one entry for each token
with characters, in order: with its text, the lines and columns of its start and its end, and its
class.  Only string literals are listed as such, and of the keywords all but those that the file
implies. -/
theorem mapFile_tokens (path : String) (t : Text) (file : File) (doc : Document)
    (hparse : parse t = .ok file)
    (hreturn : ∀ token ∈ (TokenStream.ofText t).tokens, token.hasQuotedReturn = false)
    (hdots : ∀ e ∈ file.exprs, e.dotsBetweenArgs (TokenStream.ofText t).tokens = false)
    (h : mapFile ⟨path, t⟩ file .strict = .ok doc) :
    List.Forall₂ (Token.ListedAs t file)
      ((TokenStream.ofText t).tokens.filter fun token => !token.text.isEmpty) doc.tokens := by
  obtain ⟨comments, before, last, hcomments, hshape, -, htable⟩ := mapFile_eq_ok h
  obtain ⟨doc', comments', stop, hdoc, hspans, hlaid⟩ :=
    Mapping.exists_laid_document (m := ⟨⟨path, t⟩, .strict⟩) hparse hreturn hdots
  -- a mapping makes one document, so this is the one laid out as planned
  obtain rfl : doc' = doc := by
    rw [mapFile, if_pos (parse_eq_ok hparse).2.2, hdoc] at h
    exact Except.ok.inj h
  exact Mapping.forall₂_listedAs (m := ⟨⟨path, t⟩, .strict⟩) hparse hreturn hcomments hshape
    (fun planned hplanned => hlaid.exists_of_mem (List.mem_append_left _ hplanned)) hdots hspans
    htable

/-- A function with one keyword of each kind that is implied.  Neither these nor its names, symbols
and numbers have a class. -/
theorem mapFile_tokens_implied :
    ∃ t file doc, t = ("package p\nvar s = \"\"\nfunc f(c <-chan T) \x7b\nfor range c \x7b\x7d\n" ++
        "if 1 \x7b\x7d else \x7b\x7d\nswitch x.(type) \x7b\x7d\n\x7d\n").toList ∧
      parse t = .ok file ∧ mapFile ⟨"p.go", t⟩ file .strict = .ok doc ∧
      List.Forall₂ (Token.ListedAs t file)
        ((TokenStream.ofText t).tokens.filter fun token => !token.text.isEmpty) doc.tokens ∧
      (doc.tokens.filter fun entry => entry.type != .other).map
          (fun entry => (entry.text, entry.type)) =
        [("package", .keyword), ("var", .keyword), ("\"\"", .stringLiteral), ("func", .keyword),
          ("for", .keyword), ("if", .keyword), ("switch", .keyword)] := by
  generalize ht : ("package p\nvar s = \"\"\nfunc f(c <-chan T) \x7b\nfor range c \x7b\x7d\n" ++
    "if 1 \x7b\x7d else \x7b\x7d\nswitch x.(type) \x7b\x7d\n\x7d\n").toList = t
  obtain ⟨file, hparse, hfile⟩ : ∃ file, parse t = .ok file ∧
      ((file.exprs.all fun e => !e.dotsBetweenArgs (TokenStream.ofText t).tokens) &&
        (mapFile ⟨"p.go", t⟩ file .strict).toOption.any fun doc =>
          (doc.tokens.filter fun entry => entry.type != .other).map
            (fun entry => (entry.text, entry.type)) ==
          [("package", .keyword), ("var", .keyword), ("\"\"", .stringLiteral), ("func", .keyword),
            ("for", .keyword), ("if", .keyword), ("switch", .keyword)]) = true := by
    subst ht
    refine exists_ok_and_of_any ?_
    decide +kernel
  obtain ⟨hdots, hmap⟩ := Bool.and_eq_true_iff.1 hfile
  obtain ⟨doc, hdoc, htypes⟩ := exists_ok_and_of_any hmap
  have hreturn : '\r' ∉ t := by
    subst ht
    decide
  refine ⟨t, file, doc, rfl, hparse, hdoc, ?_, by simpa using htypes⟩
  exact mapFile_tokens "p.go" t file doc hparse (TokenStream.hasQuotedReturn_of_not_mem hreturn)
    (by simpa using hdots) hdoc

end GoTree
