import Mathlib.Data.List.SplitBy
import GoTree.Proofs.Grammar.Keywords
import GoTree.Proofs.Mapping.Placed
import GoTree.Proofs.Token.Blank

/-!
# Groups of comments

The groups of the comments of a file are found from the characters between two comments, but they
are a matter of tokens: neighbouring comments are in one group just if the grammar reads nothing
between them and the line breaks at most once.  For a text that is no file this may fail, since it
may hold stray characters that are blank.

## Main results

* `exists_mem_splitBy_iff`: which neighbours of a list are in one run
* `kind_ne_unknown_of_parse`: a text that is read as a file has no malformed token
* `adjacentComments_iff`: when two neighbouring comments are adjacent
* `parse_commentGroups`: the groups of the comments of a file
-/

namespace GoTree

/-! ### Runs of a list -/

/-- **Neighbours of a list without repetitions** are in one of its runs just if they are related. -/
theorem exists_mem_splitBy_iff {α : Type} {r : α → α → Bool} {left right : List α} {a b : α}
    (h : (left ++ a :: b :: right).Nodup) :
    (∃ run ∈ (left ++ a :: b :: right).splitBy r, a ∈ run ∧ b ∈ run) ↔ r a b = true := by
  obtain ⟨-, hrest, hleft⟩ := List.nodup_append.1 h
  have hbehind : a ∉ b :: right := (List.nodup_cons.1 hrest).1
  have hbefore : ∀ c ∈ a :: b :: right, c ∉ left := fun c hc hmem => hleft c hmem c hc rfl
  constructor
  · rintro ⟨run, hrun, ha, hb⟩
    by_contra hr
    -- the runs before `b` and those from `b` on have no element in common
    have hsplit : (left ++ a :: b :: right).splitBy r =
        (left ++ [a]).splitBy r ++ (b :: right).splitBy r := by
      rw [← List.splitBy_append_cons right (by simpa using hr), List.append_assoc]
      rfl
    rw [hsplit, List.mem_append] at hrun
    rcases hrun with hrun | hrun
    · have hmem : b ∈ left ++ [a] := by
        rw [← List.flatten_splitBy r (left ++ [a])]
        exact List.mem_flatten_of_mem hrun hb
      rcases List.mem_append.1 hmem with hmem | hmem
      · exact hbefore b (by simp) hmem
      · exact hbehind (by simp [List.mem_singleton.1 hmem])
    · have hmem : a ∈ b :: right := by
        rw [← List.flatten_splitBy r (b :: right)]
        exact List.mem_flatten_of_mem hrun ha
      exact hbehind hmem
  · intro hr
    have hflatten := List.flatten_splitBy r (left ++ a :: b :: right)
    have hchain := List.isChain_getLast_head_splitBy r (left ++ a :: b :: right)
    obtain ⟨run, hrun, ha⟩ : ∃ run ∈ (left ++ a :: b :: right).splitBy r, a ∈ run := by
      rw [← List.mem_flatten, hflatten]
      simp
    refine ⟨run, hrun, ha, ?_⟩
    obtain ⟨front, back, hruns⟩ := List.append_of_mem hrun
    obtain ⟨x, y, rfl⟩ := List.append_of_mem ha
    rw [hruns] at hflatten hchain
    -- `a` stands in one place, so `b` stands right behind it
    have hplace : left ++ a :: b :: right = front.flatten ++ x ++ a :: (y ++ back.flatten) := by
      simpa using hflatten.symm
    obtain ⟨-, -, hnext⟩ :=
      (List.append_cons_inj_of_notMem (hbefore a (by simp)) hbehind).1 hplace
    cases y with
    | cons c y =>
      obtain ⟨rfl, -⟩ := List.cons.inj hnext
      simp
    | nil =>
      -- otherwise `a` is the last of its run and `b` the first of the next
      cases back with
      | nil => simp at hnext
      | cons next back =>
        have hbreak := (List.isChain_append_cons_cons.1 hchain).2.1
        cases next with
        | nil => simp at hbreak
        | cons c next =>
          obtain ⟨rfl, -⟩ := List.cons.inj hnext
          simp [hr] at hbreak

/-! ### Tokens between two comments -/

variable {t : Text} {file : File} {left right before middle after : List Token} {a b : Token}

/-- **A text that is read as a file** has no malformed token. -/
theorem kind_ne_unknown_of_parse (h : parse t = .ok file) {token : Token}
    (htoken : token ∈ (TokenStream.ofText t).tokens) : token.kind ≠ .unknown := by
  obtain ⟨⟨taken, rest, htokens, hrest, hspells⟩, -, -⟩ := parse_eq_ok h
  rw [htokens, List.mem_append] at htoken
  rcases htoken with htaken | hleft
  · exact hspells.known token htaken
  · -- only the end of the text is left over
    cases rest with
    | nil => cases hleft
    | cons last rest =>
      obtain ⟨rfl, rfl⟩ := TokenStream.eq_endOfFile_of_append htokens hrest
      obtain rfl := List.mem_singleton.1 hleft
      simp [Token.endOfFile]

/-- Between two neighbouring comments stands no other comment. -/
theorem exists_between_comments
    (h : (TokenStream.ofText t).comments = left ++ a :: b :: right) :
    ∃ before middle after, Token.body t = before ++ a :: (middle ++ b :: after) ∧
      ∀ token ∈ middle, token.kind.isComment = false := by
  rw [TokenStream.comments_eq] at h
  obtain ⟨front, rest, hbody, -, hrest⟩ := List.filter_eq_append_iff.1 h
  obtain ⟨gap, rest', rfl, -, -, hrest'⟩ := List.filter_eq_cons_iff.1 hrest
  obtain ⟨middle, after, rfl, hmiddle, -, -⟩ := List.filter_eq_cons_iff.1 hrest'
  exact ⟨front ++ gap, middle, after, by simp [hbody], by simpa using hmiddle⟩

/-- What stands between two tokens are the tokens between them. -/
theorem tiles_between (h : Token.body t = before ++ a :: (middle ++ b :: after)) :
    Tiles t a.stop middle b.start ∧ t.IsBoundary a.stop := by
  have htiles := Token.tiles_body t
  rw [h, Tiles.append_iff] at htiles
  obtain ⟨-, -, -, hslice, hrest⟩ := htiles
  obtain ⟨stop, hmiddle, hstart, -, -⟩ := Tiles.append_iff.1 hrest
  exact ⟨hstart ▸ hmiddle, (Text.isBoundary_of_slice? hslice).2⟩

/-- The tokens between two others are told by their offsets. -/
theorem mem_between_iff (h : Token.body t = before ++ a :: (middle ++ b :: after)) {token : Token}
    (htoken : token ∈ Token.body t) :
    token ∈ middle ↔ a.stop ≤ token.start ∧ token.stop ≤ b.start := by
  constructor
  · exact (tiles_between h).1.le_of_mem
  · rintro ⟨hstart, hstop⟩
    have hlt := Token.start_lt_stop_of_mem_body htoken
    have ha : a.start < a.stop := Token.start_lt_stop_of_mem_body (t := t) (by simp [h])
    have hb : b.start < b.stop := Token.start_lt_stop_of_mem_body (t := t) (by simp [h])
    have horder := (Token.tiles_body t).pairwise
    rw [h] at horder htoken
    rw [List.pairwise_append] at horder
    obtain ⟨-, hrest, hbefore⟩ := horder
    rw [← List.cons_append, List.pairwise_append] at hrest
    -- what stands elsewhere stops before the first token or starts after the second
    simp only [List.mem_append, List.mem_cons] at htoken
    rcases htoken with hmem | rfl | hmem | rfl | hmem
    · have hle := hbefore token hmem a (by simp)
      omega
    · omega
    · exact hmem
    · omega
    · have hle := (List.pairwise_cons.1 hrest.2.1).1 token hmem
      omega

/-- **Neighbouring comments of a file are adjacent** just if the grammar reads nothing between them
and at most one line feed stands there. -/
theorem adjacentComments_iff (hparse : parse t = .ok file)
    (h : (TokenStream.ofText t).comments = left ++ a :: b :: right) :
    adjacentComments t a b = true ↔
      (∀ token ∈ (TokenStream.ofText t).tokens, token.text ≠ [] →
        ¬ (a.stop ≤ token.start ∧ token.stop ≤ b.start)) ∧
      ∃ between, t.slice? a.stop b.start = some between ∧ between.count '\n' ≤ 1 := by
  obtain ⟨before, middle, after, hbody, hcomment⟩ := exists_between_comments h
  obtain ⟨htiles, hstart⟩ := tiles_between hbody
  have hslice := htiles.slice? hstart
  have hmem : ∀ token ∈ middle, token ∈ Token.body t := fun token htoken => by simp [hbody, htoken]
  have hread : ∀ token ∈ middle, token.kind.isTrivia = false →
      token ∈ (TokenStream.ofText t).tokens := fun token htoken htrivia =>
    TokenStream.mem_tokens_of_mem_filter (List.mem_filter.2 ⟨hmem token htoken, by simp [htrivia]⟩)
  have hknown : ∀ token ∈ middle, token.kind ≠ .unknown := by
    intro token htoken hkind
    have hmem' := hread token htoken (by simp [hkind, Token.Kind.isTrivia])
    exact kind_ne_unknown_of_parse hparse hmem' hkind
  have hblank := Token.all_isBlank_flatMap hmem hcomment hknown
  -- the grammar reads a token with characters just if it is neither blank nor a comment
  have hnone : (middle.all fun token => token.kind.isTrivia) = true ↔
      ∀ token ∈ (TokenStream.ofText t).tokens, token.text ≠ [] →
        ¬ (a.stop ≤ token.start ∧ token.stop ≤ b.start) := by
    rw [List.all_eq_true]
    constructor
    · intro htrivia token htoken hne hbetween
      rcases TokenStream.mem_tokens htoken with ⟨hbody', hkind⟩ | ⟨-, hempty⟩ | rfl
      · have hkind' := htrivia token ((mem_between_iff hbody hbody').2 hbetween)
        simp [hkind] at hkind'
      · exact hne hempty
      · exact hne rfl
    · intro hnot token htoken
      by_contra htrivia
      refine hnot token (hread token htoken (by simpa using htrivia))
        (Token.proper_of_mem_body (hmem token htoken)).1 ?_
      exact (mem_between_iff hbody (hmem token htoken)).1 htoken
  rw [adjacentComments, hslice, ← hnone, ← hblank]
  simp

/-! ### Groups -/

/-- Comments of a text are told apart by what is stored of them. -/
theorem mem_of_ofToken_mem_map {run : List Token} (hrun : run ⊆ (TokenStream.ofText t).comments)
    (ha : a ∈ (TokenStream.ofText t).comments)
    (h : Comment.ofToken a ∈ run.map Comment.ofToken) : a ∈ run := by
  obtain ⟨other, hother, heq⟩ := List.mem_map.1 h
  have hsame : other = a := Token.eq_of_start_eq (Mapping.mem_comments (hrun hother)).1
    (Mapping.mem_comments ha).1 (congrArg Comment.slash heq)
  exact hsame ▸ hother

/-- Two comments are in one group just if they are in one run of adjacent comments. -/
theorem exists_group_iff (ha : a ∈ (TokenStream.ofText t).comments)
    (hb : b ∈ (TokenStream.ofText t).comments) :
    (∃ group ∈ commentGroups t (TokenStream.ofText t).comments,
        Comment.ofToken a ∈ group.list ∧ Comment.ofToken b ∈ group.list) ↔
      ∃ run ∈ (TokenStream.ofText t).comments.splitBy (adjacentComments t), a ∈ run ∧ b ∈ run := by
  constructor
  · rintro ⟨group, hgroup, ha', hb'⟩
    obtain ⟨run, hmem, rfl⟩ := List.mem_map.1 hgroup
    have hrun : run ⊆ (TokenStream.ofText t).comments := by
      intro token htoken
      rw [← List.flatten_splitBy (adjacentComments t) (TokenStream.ofText t).comments]
      exact List.mem_flatten_of_mem hmem htoken
    exact ⟨run, hmem, mem_of_ofToken_mem_map hrun ha ha', mem_of_ofToken_mem_map hrun hb hb'⟩
  · rintro ⟨run, hmem, ha', hb'⟩
    exact ⟨_, List.mem_map_of_mem hmem, List.mem_map_of_mem ha', List.mem_map_of_mem hb'⟩

/-- **The groups of the comments of a file.**  One after the other they hold the comments of the
text, in the order in which they start there, without carriage returns; no group is empty.  Two
neighbouring comments are in one group just if the grammar reads no token with characters between
them and at most one line feed stands there. -/
theorem parse_commentGroups (h : parse t = .ok file) :
    file.comments.flatMap CommentGroup.list =
      (TokenStream.ofText t).comments.map Comment.ofToken ∧
    (file.comments.flatMap CommentGroup.list).Pairwise (fun c d => c.slash < d.slash) ∧
    (∀ group ∈ file.comments, group.list ≠ []) ∧
    ∀ left a b right, (TokenStream.ofText t).comments = left ++ a :: b :: right →
      ((∃ group ∈ file.comments,
          Comment.ofToken a ∈ group.list ∧ Comment.ofToken b ∈ group.list) ↔
        (∀ token ∈ (TokenStream.ofText t).tokens, token.text ≠ [] →
          ¬ (a.stop ≤ token.start ∧ token.stop ≤ b.start)) ∧
        ∃ between, t.slice? a.stop b.start = some between ∧ between.count '\n' ≤ 1) := by
  have hall : file.comments.flatMap CommentGroup.list =
      (TokenStream.ofText t).comments.map Comment.ofToken := Mapping.allComments_of_parse h
  have horder := TokenStream.pairwise_start_comments t
  rw [hall]
  rw [(parse_eq_ok h).2.1]
  refine ⟨rfl, List.pairwise_map.2 horder, ?_, ?_⟩
  · intro group hgroup
    obtain ⟨run, hrun, rfl⟩ := List.mem_map.1 hgroup
    simpa using List.ne_nil_of_mem_splitBy hrun
  · intro left a b right hcomments
    have hnodup : (left ++ a :: b :: right).Nodup := by
      rw [← hcomments]
      exact horder.imp fun hlt heq => by simp [heq] at hlt
    rw [exists_group_iff (by simp [hcomments]) (by simp [hcomments]), hcomments,
      exists_mem_splitBy_iff hnodup]
    exact adjacentComments_iff h hcomments

/-- A text with a byte order mark.  Of its four comments the first two are in one group, though the
first ends in a carriage return and the second reaches over a line; an empty line keeps the third
apart, and a declaration the fourth. -/
theorem parse_commentGroups_mark :
    ∃ t file a b c d, t = "\ufeffpackage p // a\r\n/*b\n*/\n\n// c\nvar x int // d\n".toList ∧
      parse t = .ok file ∧ (TokenStream.ofText t).comments = [a, b, c, d] ∧
      (∃ group ∈ file.comments,
        Comment.ofToken a ∈ group.list ∧ Comment.ofToken b ∈ group.list) ∧
      (¬ ∃ group ∈ file.comments,
        Comment.ofToken b ∈ group.list ∧ Comment.ofToken c ∈ group.list) ∧
      ¬ ∃ group ∈ file.comments,
        Comment.ofToken c ∈ group.list ∧ Comment.ofToken d ∈ group.list := by
  generalize ht : "\ufeffpackage p // a\r\n/*b\n*/\n\n// c\nvar x int // d\n".toList = t
  have hcomments : (TokenStream.ofText t).comments =
      [⟨.lineComment, 13, "// a\r".toList⟩, ⟨.blockComment, 19, "/*b\n*/".toList⟩,
        ⟨.lineComment, 27, "// c".toList⟩, ⟨.lineComment, 42, "// d".toList⟩] := by
    subst ht
    decide +kernel
  have hname : ⟨.name, 36, ['x']⟩ ∈ (TokenStream.ofText t).tokens := by
    subst ht
    decide +kernel
  have hfirst : ∀ token ∈ (TokenStream.ofText t).tokens, token.text ≠ [] →
      ¬ (18 ≤ token.start ∧ token.stop ≤ 19) := by
    subst ht
    decide +kernel
  have hslice : Text.slice? t 18 19 = some ['\n'] ∧ Text.slice? t 25 27 = some ['\n', '\n'] := by
    subst ht
    decide +kernel
  obtain ⟨file, hparse, -⟩ : ∃ file, parse t = .ok file ∧ file.comments.length == 3 := by
    subst ht
    refine exists_ok_and_of_any ?_
    decide +kernel
  obtain ⟨-, -, -, hgroup⟩ := parse_commentGroups hparse
  refine ⟨t, file, _, _, _, _, rfl, hparse, hcomments, ?_, ?_, ?_⟩
  · exact (hgroup [] _ _ _ hcomments).2 ⟨hfirst, ['\n'], hslice.1, by decide⟩
  · rw [hgroup [_] _ _ _ hcomments]
    rintro ⟨-, between, hbetween, hcount⟩
    obtain rfl := Option.some.inj (hslice.2.symm.trans hbetween)
    exact absurd hcount (by decide)
  · rw [hgroup [_, _] _ _ _ hcomments]
    rintro ⟨hnone, -⟩
    exact hnone _ hname (by decide) (by decide)

end GoTree
