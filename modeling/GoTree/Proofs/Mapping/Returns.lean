import GoTree.Proofs.Grammar.MovedRules
import GoTree.Proofs.Mapping.Agree
import GoTree.Proofs.Mapping.Document
import GoTree.Proofs.Mapping.Placed
import GoTree.Proofs.Tree.Traversal

/-!
# Carriage returns at the ends of lines

Whether the lines of a text end with a line feed or with a carriage return and a line feed makes no
difference to the document of the text, but for the carriage returns in the texts it holds and for
the byte offsets.

The two texts are read as syntax trees of which one is the other with its offsets moved, and every
token that was recorded stands where it was recorded.  So the two mappings agree step by step.

## Main definitions

* `Document.withReturns`: a document in the text with carriage returns
* `Document.plain`: a document without byte offsets and without carriage returns

## Main results

* `Mapping.Returns.document`: the mappings of the two texts agree
* `mapFile_withReturns`: the two documents are the same without offsets and carriage returns
-/

namespace GoTree

open GoTree.Text

variable {t : Text} {file file' : File}

/-! ### What is read of a text -/

/-- **The tokens that a file records stand in its text.** -/
theorem stands_of_planned (hreturn : '\r' ∉ t) (hparse : parse t = .ok file) :
    ∀ leaf ∈ file.planned, leaf.Stands t t.tokenShift := by
  intro leaf hleaf
  obtain ⟨token, htoken, hdenotes⟩ := Mapping.exists_denoted_of_planned hparse hleaf
  obtain ⟨hbody, htrivia⟩ := hdenotes.mem_body htoken
  have hslice := (Token.tiles_body t).slice?_of_mem hbody
  have hproper := Token.proper_of_mem_body hbody
  have hfree := not_return_mem_of_slice? hreturn hslice
  -- without carriage returns, what is stored of a token is all of it
  have hstored : leaf.text = String.ofList token.text := by
    have hquoted := Token.hasQuotedReturn_of_not_mem hfree
    rw [← withoutReturns_of_not_mem hfree]
    exact (Token.stored?_eq_some hproper.2 hquoted hdenotes.text).1
  have hpos : leaf.pos = token.start := hdenotes.pos
  refine ⟨⟨token.stop, ?_⟩, .inl ?_, ?_⟩
  · rw [hpos, hstored, String.toList_ofList, hslice]
  · rw [hstored, String.toList_ofList]
    exact hproper.1
  · rw [hpos, Token.tokenShift_of_mem_body hbody htrivia]

/-- The end of a file stands at the end of its text. -/
theorem stands_end (t : Text) :
    Plan.Leaf.Stands t t.tokenShift ⟨[.endOfFile], t.size, "", ""⟩ := by
  refine ⟨⟨t.size, ?_⟩, .inr rfl, ?_⟩
  · exact slice?_self (isBoundary_size t)
  · exact (tokenShift_size t).trans (shift_size t).symm

/-- **A comment is stored without the carriage returns** that it takes in. -/
theorem Token.Widened.comment {a b : Token} (h : Widened t a b)
    (hkind : a.kind.isComment = true) :
    Comment.ofToken b = (Comment.ofToken a).move t.shift := by
  cases h with
  | newline start => cases hkind
  | line kind start hline => rfl
  | lines start hhead hlines =>
    simp only [Comment.ofToken, Comment.move, withoutReturns_withReturns]
  | @ended kind start x hline hended =>
    have hstored : withoutReturns (x ++ ['\r']) = withoutReturns x := by simp [withoutReturns]
    simp only [Comment.ofToken, Comment.move, hstored]

theorem map_ofToken_filter {tokens tokens' : List Token}
    (h : List.Forall₂ (Token.Widened t) tokens tokens') :
    (tokens'.filter fun token => token.kind.isComment).map Comment.ofToken =
      ((tokens.filter fun token => token.kind.isComment).map Comment.ofToken).map
        (Comment.move t.shift) := by
  induction h with
  | nil => rfl
  | @cons a b tokens tokens' hab _ ih =>
    rw [List.filter_cons, List.filter_cons, hab.kind_eq]
    split
    · rename_i hkind
      rw [List.map_cons, List.map_cons, List.map_cons, ih, hab.comment hkind]
    · exact ih

/-- The comments of a text are among its tokens other than blanks. -/
theorem comments_eq_filter_visible (t : Text) :
    (TokenStream.ofText t).comments =
      (Token.visible (Token.body t)).filter fun token => token.kind.isComment := by
  rw [TokenStream.comments_eq, Token.visible, List.filter_filter]
  refine List.filter_congr fun token _ => ?_
  cases token.kind <;> rfl

/-- **The comments are moved like the text around them.** -/
theorem allComments_withReturns (hparse : parse t = .ok file)
    (hparse' : parse t.withReturns = .ok file') :
    file'.allComments = file.allComments.map (Comment.move t.shift) := by
  rw [Mapping.allComments_of_parse hparse, Mapping.allComments_of_parse hparse',
    comments_eq_filter_visible, comments_eq_filter_visible]
  exact map_ofToken_filter (Token.forall₂_body t)

/-- A comment stands in the text as it is stored. -/
theorem slice?_of_mem_allComments (hreturn : '\r' ∉ t) (hparse : parse t = .ok file) :
    ∀ comment ∈ file.allComments, ∃ stop, t.slice? comment.slash stop = some comment.text.toList ∧
      comment.text.toList ≠ [] := by
  intro comment hcomment
  rw [Mapping.allComments_of_parse hparse] at hcomment
  obtain ⟨token, htoken, rfl⟩ := List.mem_map.1 hcomment
  have hbody := (Mapping.mem_comments htoken).1
  have hslice := (Token.tiles_body t).slice?_of_mem hbody
  have hfree := not_return_mem_of_slice? hreturn hslice
  refine ⟨token.stop, ?_⟩
  rw [Comment.ofToken, withoutReturns_of_not_mem hfree, String.toList_ofList]
  exact ⟨hslice, (Token.proper_of_mem_body hbody).1⟩

/-! ### Documents -/

/-- The entry of a comment in the text with carriage returns. -/
def CommentEntry.withReturns (entry : CommentEntry) : CommentEntry :=
  ⟨String.ofList (Text.withReturns entry.text.toList),
    String.ofList (Text.withReturns entry.contentText.toList), entry.range, entry.contentRange⟩

/-- The entry of a token in the text with carriage returns. -/
def TokenEntry.withReturns (entry : TokenEntry) : TokenEntry :=
  ⟨String.ofList (Text.withReturns entry.text.toList), entry.range, entry.type⟩

/-- **A document in the text with carriage returns.** -/
def Document.withReturns (t : Text) (doc : Document) : Document :=
  ⟨doc.tree.withReturns t, doc.comments.map CommentEntry.withReturns,
    doc.tokens.map TokenEntry.withReturns⟩

namespace CommentEntry

theorem dropOpening_of_ne {x : Text} (h : ¬ ∃ rest, x = ['/', '*'] ++ rest) :
    dropOpening x = x := by
  unfold dropOpening
  split
  · exact absurd ⟨_, rfl⟩ h
  · rfl

theorem dropOpening_withReturns (x : Text) :
    dropOpening (Text.withReturns x) = Text.withReturns (dropOpening x) := by
  by_cases h : ∃ rest, x = ['/', '*'] ++ rest
  · obtain ⟨rest, rfl⟩ := h
    rw [withReturns_append]
    rfl
  · rw [dropOpening_of_ne h, dropOpening_of_ne]
    rintro ⟨rest, hrest⟩
    obtain ⟨y, hy, -⟩ := exists_of_withReturns_eq_append hrest (by decide) (by decide)
    exact h ⟨y, hy⟩

theorem dropClosing_withReturns (x : Text) :
    dropClosing (Text.withReturns x) = Text.withReturns (dropClosing x) := by
  unfold dropClosing
  by_cases h : ['*', '/'] <:+ x
  · obtain ⟨front, rfl⟩ := h
    rw [withReturns_append, withReturns_of_not_mem (show '\n' ∉ ['*', '/'] by decide)]
    simp
  · have h' : ¬ ['*', '/'] <:+ Text.withReturns x := by
      rintro ⟨front, hfront⟩
      obtain ⟨y, hy, -⟩ := exists_of_withReturns_eq_append' hfront.symm (by decide)
      exact h ⟨y, hy.symm⟩
    rw [if_neg (mt List.isSuffixOf_iff_suffix.1 h'), if_neg (mt List.isSuffixOf_iff_suffix.1 h)]

theorem ofText_of_ne {text : String} (h : ¬ ∃ line, text.toList = ['/', '/'] ++ line)
    (range : LineRange) :
    ofText text range =
      ⟨text, String.ofList (dropClosing (dropOpening text.toList)), range,
        { range with startColumn := range.startColumn + 2, endColumn := range.endColumn - 2 }⟩ := by
  unfold ofText
  split
  · rename_i line hline
    exact absurd ⟨line, hline⟩ h
  · rfl

/-- **The delimiters of a comment** stand at the same places. -/
theorem ofText_withReturns (text : String) (range : LineRange) :
    ofText (String.ofList (Text.withReturns text.toList)) range =
      (ofText text range).withReturns := by
  by_cases h : ∃ line, text.toList = ['/', '/'] ++ line
  · obtain ⟨line, hline⟩ := h
    obtain rfl : text = String.ofList (['/', '/'] ++ line) := by rw [← hline, String.ofList_toList]
    have hreturns : Text.withReturns ('/' :: '/' :: line) = '/' :: '/' :: Text.withReturns line :=
      rfl
    simp only [ofText, withReturns, String.toList_ofList, List.cons_append, List.nil_append,
      hreturns]
  · rw [ofText_of_ne h, ofText_of_ne]
    · simp [withReturns, dropOpening_withReturns, dropClosing_withReturns]
    · -- no carriage return was put in before or between the two slashes
      rintro ⟨line, hline⟩
      rw [String.toList_ofList] at hline
      obtain ⟨y, hy, -⟩ := exists_of_withReturns_eq_append hline (by decide) (by decide)
      exact h ⟨y, hy⟩

end CommentEntry

namespace Node

mutual

theorem preorder_withReturns : (node : Node) →
    (node.withReturns t).preorder = node.preorder.map (withReturns t)
  | ⟨tags, token, label, children, start, stop⟩ => by
    rw [withReturns, preorder, preorder, List.map_cons, withReturns, withReturnsAll_eq,
      preorderAll_withReturns children]

theorem preorderAll_withReturns : (nodes : List Node) →
    preorderAll (nodes.map (withReturns t)) = (preorderAll nodes).map (withReturns t)
  | [] => rfl
  | node :: rest => by
    rw [List.map_cons, preorderAll, preorderAll, List.map_append, preorder_withReturns node,
      preorderAll_withReturns rest]

end

@[simp]
theorem isLeaf_withReturns (node : Node) : (node.withReturns t).isLeaf = node.isLeaf := by
  obtain ⟨tags, token, label, children, start, stop⟩ := node
  simp [withReturns, isLeaf]

@[simp]
theorem hasTag_withReturns (node : Node) (tag : Tag) :
    (node.withReturns t).hasTag tag = node.hasTag tag := by
  rw [hasTag, tags_withReturns, hasTag]

/-- **The leaves are the same**, in the same order. -/
theorem leaves_withReturns (node : Node) :
    (node.withReturns t).leaves = node.leaves.map (withReturns t) := by
  rw [leaves_eq, leaves_eq, preorder_withReturns, List.filter_map]
  congr 1
  exact List.filter_congr fun node _ => isLeaf_withReturns node

end Node

namespace Mapping.Returns

variable {m m' : Mapping} (h : m.Returns m') {f : Offset → Offset}

include h

/-! ### Files -/

/-- **The comments of a file**, found in both texts. -/
theorem commentLeaves {comments : List Comment}
    (hslice : ∀ comment ∈ comments, ∃ stop,
      m.text.slice? comment.slash stop = some comment.text.toList ∧ comment.text.toList ≠ []) :
    Agree (List.map (Node.withReturns m.text)) (m.commentLeaves comments)
      (m'.commentLeaves (comments.map (Comment.move m.text.shift))) := by
  induction comments with
  | nil => exact .ok rfl
  | cons comment comments ih =>
    rw [List.forall_mem_cons] at hslice
    obtain ⟨⟨stop, hcomment, hne⟩, hrest⟩ := hslice
    have hexpect := h.expect (commentTags comment) "" hcomment (.inl hne)
    rw [String.ofList_toList] at hexpect
    rw [List.map_cons, commentLeaves_cons_eq, commentLeaves_cons_eq]
    refine hexpect.bind fun leaf => (ih hrest).bind fun leaves => .ok ?_
    cases leaf <;> simp

/-- A byte order mark is no line. -/
theorem textStart : m'.textStart = m.text.shift m.textStart := by
  have hhead := head?_withReturns (t := m.text) (c := Token.byteOrderMark) (by decide) (by decide)
  unfold Mapping.textStart
  rw [h.text]
  by_cases hmark : m.text.head? = some Token.byteOrderMark
  · obtain ⟨rest, hrest⟩ := List.head?_eq_some_iff.1 hmark
    rw [if_pos (hhead.2 hmark), if_pos hmark, hrest]
    exact (shift_size_append [Token.byteOrderMark] rest).symm
  · rw [if_neg (mt hhead.1 hmark), if_neg hmark, shift_zero]

theorem packageLead (keyword : Option Node) (cursor : CommentCursor) :
    Agree (Prod.map (List.map (Node.withReturns m.text)) (CommentCursor.withReturns m.text))
      (m.packageLead keyword cursor)
      (m'.packageLead (keyword.map (Node.withReturns m.text)) (cursor.withReturns m.text)) := by
  cases keyword with
  | none => exact .ok rfl
  | some leaf =>
    rw [Option.map_some, packageLead_some_eq, packageLead_some_eq, h.textStart,
      Node.start_withReturns]
    exact (h.fillGap m.textStart leaf.start cursor).bind fun lead =>
      h.append lead.1 (some leaf) lead.2

section

variable (hmoved : file.Moved f file') (hstands : ∀ leaf ∈ file.planned, leaf.Stands m.text f)

include hmoved hstands

/-- **The package clause.** -/
theorem packageNode (cursor : CommentCursor) :
    Agree (Prod.map (Option.map (Node.withReturns m.text)) (CommentCursor.withReturns m.text))
      (m.packageNode file cursor) (m'.packageNode file' (cursor.withReturns m.text)) := by
  rw [File.planned, List.cons_append, List.forall_mem_cons, List.forall_mem_append] at hstands
  obtain ⟨⟨⟨stop, hslice⟩, hne, hkeyword⟩, hname, -⟩ := hstands
  have hexpect := h.expect [.keyword] "" hslice hne
  rw [String.ofList_toList] at hexpect
  have hplans : [file'.name.plan [] "Name"] = [file.name.plan [] "Name"].map (Plan.move f) := by
    rw [hmoved.name, Ident.plan_move, List.map_singleton]
  -- the keyword is expected on its own, since the comments before it belong to the clause
  rw [packageNode_eq, packageNode_eq, hmoved.package, hkeyword, hplans]
  refine hexpect.bind fun keyword => (h.packageLead keyword cursor).bind fun lead => ?_
  refine (h.realizeAll _ (by simpa using hname) lead.1 lead.2).bind fun made => .ok ?_
  simp [Node.group?_map]

/-- **The tree of a file.** -/
theorem fileNode (hend : f m.text.size = m'.text.size)
    (hendStands : Plan.Leaf.Stands m.text f ⟨[.endOfFile], m.text.size, "", ""⟩)
    (cursor : CommentCursor) :
    Agree (Option.map (Node.withReturns m.text)) (m.fileNode file cursor)
      (m'.fileNode file' (cursor.withReturns m.text)) := by
  have hparts : m'.fileParts file' = (m.fileParts file).map (Plan.move f) := by
    rw [fileParts, fileParts, hmoved.decls, Plan.elementsFrom_map Decl.plan_move, ← hend]
    simp
  rw [fileNode_eq, fileNode_eq, hparts]
  refine (h.packageNode hmoved hstands cursor).bind fun package => ?_
  have hchildren : (package.1.map (Node.withReturns m.text)).toList =
      package.1.toList.map (Node.withReturns m.text) := by
    cases package.1 <;> rfl
  rw [Prod.map_fst, Prod.map_snd, hchildren]
  refine (h.realizeAll _ ?_ package.1.toList package.2).bind fun made => .ok ?_
  · rw [File.planned, List.forall_mem_append] at hstands
    rw [fileParts, Plan.leavesAll_cons, Plan.leavesAll_cons, List.forall_mem_append]
    exact ⟨hstands.2, by simpa using hendStands⟩
  · simp [Node.group?_map]

end

/-! ### Tables -/

/-- **A node has the same lines and columns.** -/
theorem lineRange (node : Node) :
    Agree id (m.lineRange node) (m'.lineRange (node.withReturns m.text)) := by
  unfold Mapping.lineRange
  rw [h.text, Node.start_withReturns, Node.stop_withReturns, lineColumn?_shift h.free,
    lineColumn?_shift h.free]
  split
  · exact .ok rfl
  · exact .error _ _

theorem commentEntry (node : Node) :
    Agree CommentEntry.withReturns (m.commentEntry node)
      (m'.commentEntry (node.withReturns m.text)) := by
  rw [commentEntry_eq, commentEntry_eq]
  refine (h.lineRange node).bind fun range => .ok ?_
  rw [Node.value_withReturns, CommentEntry.ofText_withReturns]
  rfl

theorem tokenEntry (node : Node) :
    Agree TokenEntry.withReturns (m.tokenEntry node)
      (m'.tokenEntry (node.withReturns m.text)) := by
  rw [tokenEntry_eq, tokenEntry_eq]
  refine (h.lineRange node).bind fun range => .ok ?_
  have hclass : TokenClass.ofNode (node.withReturns m.text) = TokenClass.ofNode node := by
    simp only [TokenClass.ofNode, Node.hasTag_withReturns]
  rw [Node.value_withReturns, hclass]
  rfl

/-- **The documents of two texts** whose files are moved like the texts. -/
theorem document (hmoved : file.Moved f file')
    (hstands : ∀ leaf ∈ file.planned, leaf.Stands m.text f) (hend : f m.text.size = m'.text.size)
    (hendStands : Plan.Leaf.Stands m.text f ⟨[.endOfFile], m.text.size, "", ""⟩)
    (hcomments : file'.allComments = file.allComments.map (Comment.move m.text.shift))
    (hslice : ∀ comment ∈ file.allComments, ∃ stop,
      m.text.slice? comment.slash stop = some comment.text.toList ∧ comment.text.toList ≠ []) :
    Agree (Document.withReturns m.text) (m.document file) (m'.document file') := by
  rw [document_eq, document_eq, hcomments]
  refine (h.commentLeaves hslice).bind fun comments => ?_
  refine (h.fileNode hmoved hstands hend hendStands (.start comments)).bind fun tree => ?_
  cases tree with
  | none => exact .error _ _
  | some tree =>
    -- the tables are read off the comments and the leaves, which are the same
    have hlisted : (tree.withReturns m.text).leaves.filter isListed =
        (tree.leaves.filter isListed).map (Node.withReturns m.text) := by
      rw [Node.leaves_withReturns, List.filter_map]
      congr 1
      refine List.filter_congr fun node _ => ?_
      simp [isListed]
    rw [Option.map_some]
    refine (Agree.collect h.commentEntry comments).bind fun commentTable => ?_
    rw [hlisted]
    exact (Agree.collect h.tokenEntry (tree.leaves.filter isListed)).bind fun tokenTable => .ok rfl

end Mapping.Returns

/-- **The mappings of the two texts agree**, each with the syntax tree of its own text. -/
theorem agree_mapFile (path path' : String) (strictness : Strictness) (hreturn : '\r' ∉ t)
    (hparse : parse t = .ok file) (hparse' : parse t.withReturns = .ok file') :
    Agree (Document.withReturns t) (mapFile ⟨path, t⟩ file strictness)
      (mapFile ⟨path', t.withReturns⟩ file' strictness) := by
  have hmoved : file.Moved t.tokenShift file' := by
    rcases parse_withReturns t with ⟨file₁, file₁', hrun, hrun', hmoved⟩ | ⟨e, e', hrun, -⟩
    · rw [hparse, Except.ok.injEq] at hrun
      rw [hparse', Except.ok.injEq] at hrun'
      rwa [hrun, hrun']
    · rw [hparse] at hrun
      cases hrun
  have hreturns : Mapping.Returns ⟨⟨path, t⟩, strictness⟩ ⟨⟨path', t.withReturns⟩, strictness⟩ :=
    ⟨rfl, rfl, hreturn⟩
  -- a file that was read has the size of its text
  unfold mapFile
  rw [if_pos (parse_eq_ok hparse).2.2, if_pos (parse_eq_ok hparse').2.2]
  exact hreturns.document hmoved (stands_of_planned hreturn hparse) (tokenShift_size t)
    (stands_end t) (allComments_withReturns hparse hparse')
    (slice?_of_mem_allComments hreturn hparse)

/-! ### What stays the same -/

/-- A stored text without its carriage returns. -/
def LeafToken.plain (token : LeafToken) : LeafToken :=
  ⟨String.ofList (Text.withoutReturns token.value.toList), token.line, token.column⟩

mutual

/-- **A node without byte offsets and without carriage returns.** -/
def Node.plain : Node → Node
  | ⟨tags, token, label, children, _, _⟩ =>
    ⟨tags, token.map LeafToken.plain, label, Node.plainAll children, 0, 0⟩

/-- The nodes of a list without byte offsets and without carriage returns. -/
def Node.plainAll : List Node → List Node
  | [] => []
  | node :: rest => Node.plain node :: Node.plainAll rest

end

/-- The entry of a comment without carriage returns. -/
def CommentEntry.plain (entry : CommentEntry) : CommentEntry :=
  ⟨String.ofList (Text.withoutReturns entry.text.toList),
    String.ofList (Text.withoutReturns entry.contentText.toList), entry.range, entry.contentRange⟩

/-- The entry of a token without carriage returns. -/
def TokenEntry.plain (entry : TokenEntry) : TokenEntry :=
  ⟨String.ofList (Text.withoutReturns entry.text.toList), entry.range, entry.type⟩

/-- **A document without byte offsets and without carriage returns.**  The shape of the tree, its
tags and labels, all lines and columns and the types of the tokens are kept. -/
def Document.plain (doc : Document) : Document :=
  ⟨doc.tree.plain, doc.comments.map CommentEntry.plain, doc.tokens.map TokenEntry.plain⟩

@[simp]
theorem LeafToken.plain_withReturns (token : LeafToken) :
    token.withReturns.plain = token.plain := by
  simp only [plain, withReturns, String.toList_ofList, withoutReturns_withReturns]

mutual

theorem Node.plain_withReturns : (node : Node) → (node.withReturns t).plain = node.plain
  | ⟨tags, token, label, children, start, stop⟩ => by
    have htoken : (token.map LeafToken.withReturns).map LeafToken.plain =
        token.map LeafToken.plain := by
      cases token <;> simp
    rw [withReturns, plain, plain, htoken, plainAll_withReturnsAll children]

theorem Node.plainAll_withReturnsAll : (nodes : List Node) →
    plainAll (withReturnsAll t nodes) = plainAll nodes
  | [] => rfl
  | node :: rest => by
    rw [withReturnsAll, plainAll, plainAll, plain_withReturns node, plainAll_withReturnsAll rest]

end

theorem CommentEntry.plain_withReturns (entry : CommentEntry) :
    entry.withReturns.plain = entry.plain := by
  simp only [plain, withReturns, String.toList_ofList, withoutReturns_withReturns]

theorem TokenEntry.plain_withReturns (entry : TokenEntry) :
    entry.withReturns.plain = entry.plain := by
  simp only [plain, withReturns, String.toList_ofList, withoutReturns_withReturns]

/-- **Carriage returns at the ends of lines are all that was put in.** -/
theorem Document.plain_withReturns (doc : Document) : (doc.withReturns t).plain = doc.plain := by
  simp only [plain, withReturns, Node.plain_withReturns, List.map_map, Function.comp_def,
    CommentEntry.plain_withReturns, TokenEntry.plain_withReturns]

/-- **Carriage returns at the ends of lines make no difference.**  The text without them and the
text with one before every line feed are both read or both not.  If they are, the mappings both
succeed or both fail, in either strictness; and if they succeed, the documents are the same but for
byte offsets and for the carriage returns in the texts of tokens and comments. -/
theorem mapFile_withReturns (path path' : String) (t : Text) (hreturn : '\r' ∉ t) :
    (parse t.withReturns).isOk = (parse t).isOk ∧
      ∀ file file', parse t = .ok file → parse t.withReturns = .ok file' → ∀ strictness,
        (mapFile ⟨path', t.withReturns⟩ file' strictness).isOk =
            (mapFile ⟨path, t⟩ file strictness).isOk ∧
          ∀ doc doc', mapFile ⟨path, t⟩ file strictness = .ok doc →
            mapFile ⟨path', t.withReturns⟩ file' strictness = .ok doc' →
              doc'.plain = doc.plain := by
  constructor
  · rcases parse_withReturns t with ⟨file, file', hrun, hrun', -⟩ | ⟨e, e', hrun, hrun'⟩
    · rw [hrun, hrun']
      rfl
    · rw [hrun, hrun']
      rfl
  · intro file file' hparse hparse' strictness
    have hagree := agree_mapFile path path' strictness hreturn hparse hparse'
    refine ⟨hagree.isOk_eq, ?_⟩
    intro doc doc' hdoc hdoc'
    rw [hdoc, hdoc'] at hagree
    obtain rfl : doc' = doc.withReturns t := Option.some.inj hagree
    exact doc.plain_withReturns

/-- A text with a line comment, a comment over two lines and a raw string over two lines. -/
theorem mapFile_withReturns_raw :
    '\r' ∉ "package p // a\n/*\n*/\nvar x = \x60c\nd\x60\n".toList ∧
      ∃ file file' doc doc',
        parse "package p // a\n/*\n*/\nvar x = \x60c\nd\x60\n".toList = .ok file ∧
          parse (Text.withReturns "package p // a\n/*\n*/\nvar x = \x60c\nd\x60\n".toList) =
            .ok file' ∧
          mapFile ⟨"p.go", "package p // a\n/*\n*/\nvar x = \x60c\nd\x60\n".toList⟩ file .strict =
            .ok doc ∧
          mapFile ⟨"q.go", Text.withReturns "package p // a\n/*\n*/\nvar x = \x60c\nd\x60\n".toList⟩
            file' .strict = .ok doc' ∧
          doc'.tokens.any (fun entry => entry.text == "\x60c\r\nd\x60") ∧
          doc'.plain = doc.plain := by
  have hreturn : '\r' ∉ "package p // a\n/*\n*/\nvar x = \x60c\nd\x60\n".toList := by decide
  obtain ⟨file, hparse, hmapped⟩ :
      ∃ file, parse "package p // a\n/*\n*/\nvar x = \x60c\nd\x60\n".toList = .ok file ∧
        (mapFile ⟨"p.go", "package p // a\n/*\n*/\nvar x = \x60c\nd\x60\n".toList⟩ file
          .strict).isOk := by
    refine exists_ok_and_of_any ?_
    decide +kernel
  obtain ⟨doc, hdoc⟩ := exists_ok_of_isOk hmapped
  obtain ⟨file', hparse', hmapped'⟩ :
      ∃ file', parse (Text.withReturns "package p // a\n/*\n*/\nvar x = \x60c\nd\x60\n".toList) =
          .ok file' ∧
        (mapFile ⟨"q.go", Text.withReturns "package p // a\n/*\n*/\nvar x = \x60c\nd\x60\n".toList⟩
          file' .strict).toOption.any
            (fun doc => doc.tokens.any fun entry => entry.text == "\x60c\r\nd\x60") := by
    refine exists_ok_and_of_any ?_
    decide +kernel
  obtain ⟨doc', hdoc', hraw⟩ := exists_ok_and_of_any hmapped'
  refine ⟨hreturn, file, file', doc, doc', hparse, hparse', hdoc, hdoc', hraw, ?_⟩
  exact ((mapFile_withReturns "p.go" "q.go" _ hreturn).2 file file' hparse hparse' .strict).2
    doc doc' hdoc hdoc'

end GoTree
