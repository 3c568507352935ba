import Mathlib.Data.List.DropRight
import Mathlib.Data.List.SplitBy
import GoTree.Proofs.Grammar.Account
import GoTree.Proofs.Mapping.Document
import GoTree.Proofs.Mapping.Recorded

/-!
# Tokens are found where they stand

With a file that was read from the text, the mapping finds every recorded token over exactly its
bytes, unless a quoted literal holds a carriage return.  It finds every comment too; the carriage
returns at the end of a line comment are left to the gap behind it.

## Main definitions

* `Token.shown`, `Token.commentStop`: a comment without the carriage returns at the end of its line
* `Token.IsCommentLeaf`: the leaf for a comment

## Main results

* `Mapping.expectLeaf_of_denotes`: a recorded token is found over its bytes
* `Mapping.exists_commentLeaves`: the comments of a text are found over theirs
-/

namespace GoTree

/-! ### Comments -/

namespace Token

/-- The characters of a comment, less the carriage returns at the end of a line comment. -/
def shown (token : Token) : Text :=
  if token.kind = .lineComment then token.text.rdropWhile (· == '\r') else token.text

/-- **Where a comment stops**, less the carriage returns at the end of a line comment. -/
def commentStop (token : Token) : Nat :=
  token.start + token.shown.size

/-- **The leaf for a comment.** -/
structure IsCommentLeaf (t : Text) (token : Token) (node : Node) : Prop where
  start : node.start = token.start
  stop : node.stop = token.commentStop
  slice : node.IsSlice t
  tagged : node.hasTag .comment = true

variable {token : Token}

/-- **What is shown of a comment** starts with a slash and does not end with a carriage return; only
carriage returns are left out. -/
theorem shown_of_isComment (hproper : token.Proper) (hkind : token.kind.isComment = true) :
    ∃ returns, token.text = token.shown ++ returns ∧ (∀ c ∈ returns, c = '\r') ∧
      token.shown.head? = some '/' ∧ token.shown.getLast? ≠ some '\r' := by
  obtain ⟨kind, start, text⟩ := token
  cases kind with
  | lineComment =>
    -- only a line comment can end with carriage returns, those before its line break
    obtain ⟨rest, hrest⟩ : ∃ rest, text = '/' :: '/' :: rest := hproper
    have hsplit : text = text.rdropWhile (· == '\r') ++ text.rtakeWhile (· == '\r') :=
      List.rdropWhile_append_rtakeWhile.symm
    have hne : text.rdropWhile (· == '\r') ≠ [] := by
      intro hnil
      have hall := List.rdropWhile_eq_nil_iff.1 hnil '/' (by simp [hrest])
      simp at hall
    refine ⟨text.rtakeWhile (· == '\r'), hsplit, ?_, ?_, ?_⟩
    · intro c hc
      simpa using List.mem_rtakeWhile_imp hc
    · obtain ⟨c, shown, hshown⟩ := List.exists_cons_of_ne_nil hne
      have hhead : text.head? = some c := by rw [hsplit, hshown]; rfl
      rw [hrest] at hhead
      show (text.rdropWhile (· == '\r')).head? = some '/'
      rw [hshown, List.head?_cons, ← hhead]
      rfl
    · show (text.rdropWhile (· == '\r')).getLast? ≠ some '\r'
      rw [List.getLast?_eq_some_getLast hne]
      intro hlast
      have hnot := List.rdropWhile_last_not (p := (· == '\r')) (l := text) hne
      simp [Option.some.inj hlast] at hnot
  | blockComment =>
    obtain ⟨rest, hrest, hlast⟩ : ∃ rest, text = '/' :: rest ∧ text.getLast? = some '/' := hproper
    refine ⟨[], (List.append_nil text).symm, by simp, ?_, ?_⟩
    · show text.head? = some '/'
      rw [hrest, List.head?_cons]
    · show text.getLast? ≠ some '\r'
      simp [hlast]
  | symbol | keyword | literal | name | whitespace | newline | unknown | endOfFile =>
    simp [Kind.isComment] at hkind

end Token

namespace Mapping

variable {m : Mapping}

/-- **A comment of the text is found.** -/
theorem exists_commentLeaf {token : Token} (htoken : token ∈ Token.body m.text)
    (hkind : token.kind.isComment = true) :
    ∃ node, m.expect (commentTags (.ofToken token)) token.start (Comment.ofToken token).text "" =
        .ok (some node) ∧ token.IsCommentLeaf m.text node := by
  obtain ⟨returns, htext, hreturns, hhead, hlast⟩ :=
    Token.shown_of_isComment (Token.proper_of_mem_body htoken).2 hkind
  have hslice := (Token.tiles_body m.text).slice?_of_mem htoken
  rw [htext] at hslice
  have hshown := (Text.slice?_of_append hslice).1
  have hstored : token.text.withoutReturns = token.shown.withoutReturns := by
    rw [htext, Text.withoutReturns, List.filter_append, ← Text.withoutReturns]
    have hnone : returns.filter (· != '\r') = [] := by simpa [List.filter_eq_nil_iff] using hreturns
    rw [hnone, List.append_nil]
  have hne : token.shown ≠ [] := by
    intro hnil
    simp [hnil] at hhead
  obtain ⟨p, -, hmade⟩ :=
    expect_of_slice? (commentTags (.ofToken token)) "" hshown (.inl hne) hlast
  have hcomment : (Comment.ofToken token).text = String.ofList token.shown.withoutReturns := by
    rw [Comment.ofToken, hstored]
  refine ⟨_, ?_, rfl, rfl, isSlice_of_expect hmade, ?_⟩
  · rw [hcomment]
    exact hmade
  · simpa [Node.hasTag, Node.leaf] using (commentTags_ne (.ofToken token)).2.1

/-- A comment starts with a slash. -/
theorem exists_slash {t : Text} {token : Token} (htoken : token ∈ Token.body t)
    (hkind : token.kind.isComment = true) :
    t.slice? token.start token.stop = some token.text ∧ token.text.head? = some '/' := by
  obtain ⟨returns, htext, -, hhead, -⟩ :=
    Token.shown_of_isComment (Token.proper_of_mem_body htoken).2 hkind
  refine ⟨(Token.tiles_body t).slice?_of_mem htoken, ?_⟩
  rw [htext, List.head?_append, hhead]
  rfl

/-- **The comments of a text are found**, in order. -/
theorem exists_commentLeaves {tokens : List Token}
    (h : ∀ token ∈ tokens, token ∈ Token.body m.text ∧ token.kind.isComment = true) :
    ∃ nodes, m.commentLeaves (tokens.map Comment.ofToken) = .ok nodes ∧
      List.Forall₂ (Token.IsCommentLeaf m.text) tokens nodes := by
  induction tokens with
  | nil => exact ⟨[], rfl, .nil⟩
  | cons token tokens ih =>
    rw [List.forall_mem_cons] at h
    obtain ⟨node, hmade, hnode⟩ := exists_commentLeaf h.1.1 h.1.2
    obtain ⟨nodes, hnodes, hall⟩ := ih h.2
    refine ⟨node :: nodes, ?_, .cons hnode hall⟩
    have hmade' : m.expect (commentTags (.ofToken token)) (Comment.ofToken token).slash
        (Comment.ofToken token).text "" = .ok (some node) := hmade
    rw [List.map_cons, commentLeaves, hmade', hnodes]
    rfl

/-- The comments of a file read from a text are those of the text. -/
theorem allComments_of_parse {t : Text} {file : File} (h : parse t = .ok file) :
    file.allComments = (TokenStream.ofText t).comments.map Comment.ofToken := by
  have hgroups := List.flatten_splitBy (adjacentComments t) (TokenStream.ofText t).comments
  calc file.allComments
      = ((TokenStream.ofText t).comments.splitBy (adjacentComments t)).flatMap
          (fun group => group.map Comment.ofToken) := by
        rw [File.allComments, (parse_eq_ok h).2.1, commentGroups, List.flatMap_map]
    _ = (TokenStream.ofText t).comments.map Comment.ofToken := by
        rw [List.flatMap_def, ← List.map_flatten, hgroups]

theorem mem_comments {t : Text} {token : Token} (h : token ∈ (TokenStream.ofText t).comments) :
    token ∈ Token.body t ∧ token.kind.isComment = true := by
  rw [TokenStream.comments_eq] at h
  exact List.mem_filter.1 h

/-- **The comments of a file read from the text** are found where they stand. -/
theorem forall₂_comments {file : File} {comments : List Node} (hparse : parse m.text = .ok file)
    (h : m.commentLeaves file.allComments = .ok comments) :
    List.Forall₂ (Token.IsCommentLeaf m.text) (TokenStream.ofText m.text).comments comments := by
  obtain ⟨nodes, hnodes, hall⟩ := exists_commentLeaves fun token => mem_comments (t := m.text)
  rw [allComments_of_parse hparse, hnodes] at h
  exact Except.ok.inj h ▸ hall

/-! ### Recorded tokens -/

/-- A planned token of a file read from a text stands for a token of the text. -/
theorem exists_denoted_of_planned {t : Text} {file : File} (hparse : parse t = .ok file)
    {leaf : Plan.Leaf} (hleaf : leaf ∈ file.planned) :
    ∃ token ∈ (TokenStream.ofText t).tokens, leaf.recorded.Denotes token := by
  obtain ⟨⟨taken, rest, htokens, -, hspells⟩, -, -⟩ := parse_eq_ok hparse
  have hrecorded : leaf.recorded ∈ file.recorded := by
    rw [← File.recorded_planned]
    exact List.mem_map_of_mem hleaf
  obtain ⟨token, htaken, hdenotes⟩ := hspells.mem _ hrecorded
  exact ⟨token, by simp [htokens, htaken], hdenotes⟩

/-- **A token stored without its carriage returns is found over its bytes.** -/
theorem expect_of_mem_body {token : Token} (htoken : token ∈ Token.body m.text)
    (hlast : token.text.getLast? ≠ some '\r') (tags : List Tag) (label : String) :
    ∃ node, m.expect tags token.start (String.ofList token.text.withoutReturns) label =
        .ok (some node) ∧ node.start = token.start ∧ node.stop = token.stop := by
  have hslice := (Token.tiles_body m.text).slice?_of_mem htoken
  have hne := (Token.proper_of_mem_body htoken).1
  obtain ⟨p, -, hmade⟩ := expect_of_slice? tags label hslice (.inl hne) hlast
  exact ⟨_, hmade, rfl, rfl⟩

/-- **A recorded token is found over its bytes**, unless it is quoted with a carriage return. -/
theorem expectLeaf_of_denotes {leaf : Plan.Leaf} {token : Token}
    (hdenotes : leaf.recorded.Denotes token) (htoken : token ∈ Token.body m.text)
    (hreturn : token.hasQuotedReturn = false) :
    ∃ node, m.expectLeaf leaf = .ok (some node) ∧ node.start = token.start ∧
      node.stop = token.stop := by
  have hproper := (Token.proper_of_mem_body htoken).2
  obtain ⟨hstored, hlast⟩ := Token.stored?_eq_some hproper hreturn hdenotes.text
  have hpos : leaf.pos = token.start := hdenotes.pos
  have htext : leaf.text = String.ofList token.text.withoutReturns := hstored
  rw [expectLeaf, hpos, htext]
  exact expect_of_mem_body htoken hlast leaf.tags leaf.label

end Mapping

end GoTree
