import GoTree.Mapping.File
import GoTree.Proofs.Mapping.Tags

/-!
# Documents

What a mapped file is made of, for any text and any syntax tree: a composed tree whose last child is
the end of the file, and whose other leaves are comments, tokens of gaps and tokens of the plans of
the package clause and the declarations.

## Main definitions

* `File.planned`: the tokens of the plans of a file, without its end
* `Node.IsEnd`: the leaf for the end of the file
* `Mapping.AtFront`: offsets before which only a byte order mark and blanks stand

## Main results

* `mapFile_eq_ok`: a document is made of comments, a tree and two tables
* `Mapping.fileNode_eq_ok`: the shape of the tree
-/

namespace GoTree

/-- The tokens of the plans of a file, without its end. -/
def File.planned (file : File) : List Plan.Leaf :=
  ⟨[.keyword], file.package, Keyword.packageKw.spelling, ""⟩ ::
    (file.name.plan [] "Name").leaves ++
      Plan.leavesAll (Plan.elementsFrom Decl.plan 0 file.decls)

/-- No token of a file is tagged as a comment or as the end of the file. -/
theorem File.plain_planned (file : File) : ∀ leaf ∈ file.planned, Tag.Plain leaf.tags := by
  have hname := file.name.plain_plan Tag.plain_nil "Name"
  have hdecls := Plan.plainAll_elementsFrom Decl.plain_plan 0 file.decls
  rw [planned, List.cons_append, List.forall_mem_cons, List.forall_mem_append]
  exact ⟨show Tag.Plain [.keyword] by decide, hname, hdecls⟩

/-- The leaf for the end of the file. -/
structure Node.IsEnd (t : Text) (node : Node) : Prop where
  tags : node.tags = [.endOfFile]
  start : node.start = t.size
  stop : node.stop = t.size
  slice : node.IsSlice t

namespace Mapping

variable {m : Mapping} {file : File}

/-! ### Comments -/

theorem mem_commentLeaves {list : List Comment} {leaves : List Node} {leaf : Node}
    (h : m.commentLeaves list = .ok leaves) (hleaf : leaf ∈ leaves) :
    ∃ comment ∈ list,
      m.expect (commentTags comment) comment.slash comment.text "" = .ok (some leaf) := by
  induction list generalizing leaves with
  | nil =>
    obtain rfl : leaves = [] := by simpa [commentLeaves] using h.symm
    simp at hleaf
  | cons comment list ih =>
    rw [commentLeaves_cons_eq] at h
    obtain ⟨first, hfirst, h⟩ := exists_of_bind_eq_ok h
    obtain ⟨others, hothers, h⟩ := exists_of_bind_eq_ok h
    obtain rfl := Except.ok.inj h
    rcases List.mem_append.1 hleaf with hleaf | hleaf
    · exact ⟨comment, by simp, Option.mem_toList.1 hleaf ▸ hfirst⟩
    · obtain ⟨other, hother, hmade⟩ := ih hothers hleaf
      exact ⟨other, by simp [hother], hmade⟩

theorem commentTags_ne (comment : Comment) :
    commentTags comment ≠ [.endOfFile] ∧ .comment ∈ commentTags comment ∧
      .endOfFile ∉ commentTags comment := by
  unfold commentTags
  split <;> decide

/-- A comment is a leaf with bytes, tagged as a comment. -/
theorem isSlice_of_commentLeaves {list : List Comment} {leaves : List Node}
    (h : m.commentLeaves list = .ok leaves) (leaf : Node) (hleaf : leaf ∈ leaves) :
    leaf.IsSlice m.text ∧ leaf.start < leaf.stop ∧ leaf.hasTag .comment = true ∧
      leaf.hasTag .endOfFile = false := by
  obtain ⟨comment, -, hmade⟩ := mem_commentLeaves h hleaf
  obtain ⟨hne, htag, hend⟩ := commentTags_ne comment
  have hleafAt := (expect_eq_ok_some hmade).1
  refine ⟨isSlice_of_leafAt hleafAt, start_lt_stop_of_leafAt hleafAt hne, ?_⟩
  obtain ⟨value, p, -, -, -, rfl⟩ := leafAt_eq_ok_some hleafAt
  simpa [Node.hasTag, Node.leaf] using ⟨htag, hend⟩

/-- **Every leaf but the end of the file has bytes** and is not tagged as the end. -/
theorem Origin.start_lt_stop {comments : List Node}
    (hcomments : m.commentLeaves file.allComments = .ok comments) {leaf : Node}
    (h : m.Origin comments file.planned leaf) :
    leaf.start < leaf.stop ∧ leaf.hasTag .endOfFile = false := by
  cases h with
  | comment mem =>
    obtain ⟨-, hlt, -, hend⟩ := isSlice_of_commentLeaves hcomments leaf mem
    exact ⟨hlt, hend⟩
  | piece made =>
    refine ⟨made.isSlice.2, ?_⟩
    simpa [Node.hasTag] using made.plain.2
  | planned mem made =>
    obtain ⟨hlt, hplain⟩ := plain_of_expectLeaf (file.plain_planned _ mem) made
    exact ⟨hlt, by simpa [Node.hasTag] using hplain.2⟩

/-! ### Before the package clause -/

/-- Offsets before which only a byte order mark and blanks stand. -/
def AtFront (m : Mapping) (offset : Nat) : Prop :=
  offset = 0 ∨ m.text.BlankBetween m.textStart offset

theorem isBoundary_textStart : m.text.IsBoundary m.textStart := by
  unfold textStart
  split
  · rename_i hmark
    obtain ⟨rest, hrest⟩ := List.head?_eq_some_iff.1 hmark
    have hsplit : m.text = [Token.byteOrderMark] ++ rest := hrest
    simpa using Text.isBoundary_of_append hsplit
  · exact Text.isBoundary_zero m.text

/-- Nothing can be cut inside the byte order mark. -/
theorem eq_zero_of_lt_textStart {offset : Nat} (h : m.text.IsBoundary offset)
    (hlt : offset < m.textStart) : offset = 0 := by
  unfold textStart at hlt
  split at hlt
  · rename_i hmark
    obtain ⟨rest, hrest⟩ := List.head?_eq_some_iff.1 hmark
    obtain ⟨a, b, hab, rfl⟩ := Text.isBoundary_iff.1 h
    cases a with
    | nil => rfl
    | cons c a =>
      rw [hrest, List.cons_append] at hab
      obtain ⟨rfl, -⟩ := List.cons.inj hab
      rw [Text.size_cons] at hlt
      omega
  · omega

/-- Nothing is found in a gap that ends before it starts. -/
theorem Filling.eq_nil_of_lt {start stop : Nat} {passed ahead gap : List Node}
    {cursor : CommentCursor} (hcomments : ∀ comment ∈ ahead, comment.IsSlice m.text)
    (hlt : stop < start) (h : m.Filling stop start passed ahead gap cursor) : gap = [] := by
  have hnone : m.punctuation start stop = .ok [] := by
    rw [punctuation, gapPieces_of_lt hlt]
    rfl
  induction h with
  | skipped _ _ ih => exact ih (List.forall_mem_of_forall_mem_cons hcomments) hlt hnone
  | found hstart hstop =>
    have hle := (hcomments _ (List.mem_cons_self ..)).start_le_stop
    omega
  | ended _ hleaves => exact Except.ok.inj (hleaves.symm.trans hnone)

/-! ### The whole tree -/

/-- **The shape of a tree.**  Its last child is the end of the file, the children before it are
composed of comments, tokens of gaps and planned tokens, and only blanks stand between neighbours.
In a strict mapping the tree starts at the front of the text. -/
structure Shape (m : Mapping) (file : File) (comments before : List Node) (last tree : Node) :
    Prop where
  isEnd : last.IsEnd m.text
  siblings : Siblings m.text (m.Origin comments file.planned) before
  chain : (before ++ [last]).IsChain fun a b => m.text.BlankBetween a.stop b.start
  made : Node.group? [.compilationUnit] "(File)" (before ++ [last]) = some tree
  front : m.strictness = .strict → ∃ first ∈ before.head?, m.AtFront first.start

/-- The end of the file is always found. -/
theorem expect_end (m : Mapping) :
    ∃ last : Node, last.IsEnd m.text ∧ m.expect [.endOfFile] m.text.size "" "" = .ok (some last) := by
  have hslice : m.text.slice? m.text.size m.text.size = some [] :=
    Text.slice?_eq_some_iff.2 ⟨m.text, [], by simp, rfl, by simp⟩
  obtain ⟨p, hp, hmade⟩ := expect_of_slice? [.endOfFile] "" hslice (.inr rfl) (by simp)
  exact ⟨_, ⟨rfl, rfl, rfl, isSlice_of_expect hmade⟩, hmade⟩

section

variable {comments : List Node} {planned : List Plan.Leaf}
  (hcomments : ∀ comment ∈ comments, comment.IsSlice m.text)

include hcomments

/-- What stands before the package keyword reaches to the front of the text. -/
theorem packageLead_eq_ok {keyword : Option Node} {cursor cursor' : CommentCursor}
    {children : List Node} (hcursor : cursor.toList = comments)
    (hkeyword : ∀ leaf ∈ keyword, m.Origin comments planned leaf)
    (h : m.packageLead keyword cursor = .ok (children, cursor')) :
    cursor'.toList = comments ∧ Siblings m.text (m.Origin comments planned) children ∧
      (keyword.isSome = true → children ≠ []) ∧
      ∀ first ∈ children.head?, m.AtFront first.start := by
  cases keyword with
  | none =>
    obtain ⟨rfl, rfl⟩ : [] = children ∧ cursor = cursor' := by simpa [packageLead] using h
    exact ⟨hcursor, ⟨by simp, .nil⟩, by simp, by simp⟩
  | some leaf =>
    have hleaf := hkeyword leaf rfl
    have hbound := (hleaf.isSlice hcomments).isBoundary.1
    obtain ⟨lead, cursor₁, hlead, happend⟩ := packageLead_some_steps h
    -- the gap reaches back to the front of the text, but not into a byte order mark
    by_cases hle : m.textStart ≤ leaf.start
    · obtain ⟨hfills, hkept, horigin⟩ :=
        origin_fillGap hcomments planned hcursor isBoundary_textStart hbound hle hlead
      cases lead with
      | nil =>
        obtain ⟨rfl, rfl⟩ : children = [leaf] ∧ cursor₁ = cursor' := by
          simpa [append, eq_comm] using happend
        exact ⟨hkept, .singleton (.leaf hleaf), by simp, by simpa using .inr hfills⟩
      | cons first lead =>
        have hsiblings : Siblings m.text (m.Origin comments planned) (first :: lead) :=
          ⟨fun node hnode => .leaf (horigin node hnode), hfills.isChain⟩
        obtain ⟨hkept', gap, rfl, hgap, hchain⟩ :=
          siblings_append hcomments hkept hsiblings hbound happend
        refine ⟨hkept', hsiblings.append hgap (.leaf hleaf) hchain, by simp, ?_⟩
        simpa using .inr hfills.1
    · -- a keyword inside the byte order mark has nothing before it
      have hahead : ∀ comment ∈ (cursor.rewind m.textStart).ahead, comment.IsSlice m.text := by
        intro comment hmem
        refine hcomments comment ?_
        rw [← hcursor, ← CommentCursor.toList_rewind cursor m.textStart]
        exact List.mem_append_right _ hmem
      have hkept := toList_fillGap hlead
      obtain rfl := (fillFrom_eq_ok_iff.1 hlead).eq_nil_of_lt hahead (Nat.not_le.1 hle)
      obtain ⟨rfl, rfl⟩ : children = [leaf] ∧ cursor₁ = cursor' := by
        simpa [append, eq_comm] using happend
      have hzero := eq_zero_of_lt_textStart hbound (Nat.not_le.1 hle)
      exact ⟨hkept.trans hcursor, .singleton (.leaf hleaf), by simp, by simpa using .inl hzero⟩

/-- **The package clause** is composed, and in a strict mapping it is there and stands at the front
of the text. -/
theorem packageNode_eq_ok {cursor cursor' : CommentCursor} {package : Option Node}
    (hcursor : cursor.toList = comments)
    (h : m.packageNode file cursor = .ok (package, cursor')) :
    cursor'.toList = comments ∧
      (∀ node ∈ package, node.Composed m.text (m.Origin comments file.planned)) ∧
      (m.strictness = .strict → ∃ node ∈ package, m.AtFront node.start) := by
  obtain ⟨keyword, lead, cursor₁, children, hkeyword, hlead, hname, rfl⟩ := packageNode_steps h
  have horigin : ∀ leaf ∈ keyword, m.Origin comments file.planned leaf := by
    intro leaf hleaf
    rw [Option.mem_def.1 hleaf] at hkeyword
    have hmem : ⟨[.keyword], file.package, Keyword.packageKw.spelling, ""⟩ ∈ file.planned := by
      simp [File.planned]
    exact .planned hmem hkeyword
  obtain ⟨hkept, hsiblings, hne, hfront⟩ := packageLead_eq_ok hcomments hcursor horigin hlead
  obtain ⟨hkept', hall, hpre⟩ := siblings_realizeAll hcomments [file.name.plan [] "Name"]
    (by simp +contextual [File.planned]) hkept hsiblings hname
  refine ⟨hkept', fun node hnode => .of_group? (Origin.isSlice hcomments) hall hnode, ?_⟩
  -- a strict mapping finds the keyword, so the node starts where the lead does
  intro hstrict
  have hsome : keyword.isSome = true := by
    cases keyword with
    | none => exact (expect_ne_none hstrict hkeyword).elim
    | some leaf => rfl
  obtain ⟨first, rest, rfl⟩ := List.exists_cons_of_ne_nil (hne hsome)
  obtain ⟨others, rfl⟩ := hpre
  rw [List.cons_append]
  obtain ⟨last, -, hgroup⟩ := Node.group?_cons [.package] "File.Package" first (rest ++ others)
  exact ⟨_, hgroup, hfront first rfl⟩

/-- **The tree of a file has this shape**, whatever the text and the syntax tree are. -/
theorem fileNode_eq_ok {tree : Node} {cursor : CommentCursor} (hcursor : cursor.toList = comments)
    (h : m.fileNode file cursor = .ok (some tree)) :
    ∃ before last, m.Shape file comments before last tree := by
  obtain ⟨package, cursor₁, children, cursor₂, hpackage, hparts, htree⟩ := fileNode_steps h
  obtain ⟨hkept, hcomposed, hfront⟩ := packageNode_eq_ok hcomments hcursor hpackage
  have hstart : Siblings m.text (m.Origin comments file.planned) package.toList := by
    cases package with
    | none => exact ⟨by simp, .nil⟩
    | some node => exact .singleton (hcomposed node rfl)
  -- the declarations come after the package clause, and the end of the file is the last child
  rw [fileParts, ← List.singleton_append, realizeAll_append_eq_ok] at hparts
  obtain ⟨children₁, cursor₃, hdecls, hend⟩ := hparts
  obtain ⟨hkept₁, hsiblings, hpre⟩ :=
    siblings_realizeAll hcomments _ (by simp +contextual [File.planned]) hkept hstart hdecls
  obtain ⟨last, hlast, hmade⟩ := expect_end m
  obtain ⟨result, cursor₄, hresult, happend⟩ := realizeAll_singleton_eq_ok.1 hend
  obtain ⟨rfl, rfl⟩ : some last = result ∧ cursor₃ = cursor₄ := by
    simpa [realize, hmade] using hresult
  obtain ⟨-, gap, rfl, hgap, hchain⟩ :=
    siblings_append hcomments hkept₁ hsiblings hlast.slice.isBoundary.1 happend
  have hbefore : Siblings m.text (m.Origin comments file.planned) (children₁ ++ gap) := by
    refine ⟨?_, hchain.left_of_append⟩
    intro node hnode
    rcases List.mem_append.1 hnode with hnode | hnode
    · exact hsiblings.composed node hnode
    · exact .leaf (hgap node hnode)
  refine ⟨children₁ ++ gap, last, hlast, hbefore, hchain, htree.symm, ?_⟩
  intro hstrict
  obtain ⟨node, hnode, hatFront⟩ := hfront hstrict
  obtain rfl := Option.mem_def.1 hnode
  obtain ⟨others, rfl⟩ := hpre
  exact ⟨node, by simp, hatFront⟩

/-- The end of the file, or a leaf that comes from one of the other places. -/
def Part (m : Mapping) (file : File) (comments : List Node) (node : Node) : Prop :=
  m.Origin comments file.planned node ∨ node.IsEnd m.text

theorem Part.isSlice (node : Node) (h : m.Part file comments node) : node.IsSlice m.text := by
  rcases h with horigin | hend
  · exact horigin.isSlice hcomments
  · exact hend.slice

namespace Shape

variable {before : List Node} {last tree : Node}

omit hcomments in
/-- The children of the tree may stand in a group. -/
theorem siblings_concat (h : m.Shape file comments before last tree) :
    Siblings m.text (m.Part file comments) (before ++ [last]) := by
  refine ⟨?_, h.chain⟩
  intro node hnode
  rw [List.mem_append, List.mem_singleton] at hnode
  rcases hnode with hnode | rfl
  · exact (h.siblings.composed node hnode).mono fun _ => .inl
  · exact .leaf (.inr h.isEnd)

/-- **The tree is composed.** -/
theorem composed (h : m.Shape file comments before last tree) :
    tree.Composed m.text (m.Part file comments) :=
  .of_group? (Part.isSlice hcomments) h.siblings_concat h.made

omit hcomments in
theorem children_eq (h : m.Shape file comments before last tree) :
    tree.children = before ++ [last] ∧
      ∃ first ∈ (before ++ [last]).head?, tree.start = first.start := by
  have hmade := h.made
  unfold Node.group? at hmade
  split at hmade
  · rename_i first _ hfirst _
    obtain rfl := Option.some.inj hmade
    exact ⟨rfl, first, hfirst, rfl⟩
  · simp at hmade

omit hcomments in
/-- **The leaves of the tree** are those of the children before the end, and the end. -/
theorem leaves_eq (h : m.Shape file comments before last tree) :
    tree.leaves = before.flatMap Node.leaves ++ [last] := by
  have hchildren := h.children_eq.1
  rw [Node.leaves_of_not_isLeaf (by simp [Node.isLeaf, hchildren]), hchildren, List.flatMap_append]
  simp [Node.leaves_of_isLeaf h.isEnd.slice.isLeaf]

/-- The tree stops where the text stops. -/
theorem fills (h : m.Shape file comments before last tree) :
    Fills m.text tree.start tree.leaves m.text.size := by
  have hfills := (h.composed hcomments).fills (Part.isSlice hcomments)
  rw [h.leaves_eq] at hfills ⊢
  have hlast := hfills.to_last h.isEnd.slice.isBoundary.2
  rwa [h.isEnd.stop] at hlast

/-- A leaf before the end comes from one of the other places. -/
theorem origin_of_mem (h : m.Shape file comments before last tree) {leaf : Node}
    (hleaf : leaf ∈ before.flatMap Node.leaves) : m.Origin comments file.planned leaf := by
  obtain ⟨child, hchild, hleaf⟩ := List.mem_flatMap.1 hleaf
  exact (h.siblings.composed child hchild).part_of_mem_leaves (Origin.isSlice hcomments) hleaf

omit hcomments in
/-- In a strict mapping the tree starts at the front of the text. -/
theorem atFront (h : m.Shape file comments before last tree) (hstrict : m.strictness = .strict) :
    m.AtFront tree.start := by
  obtain ⟨first, hfirst, hfront⟩ := h.front hstrict
  obtain ⟨-, first', hfirst', hstart⟩ := h.children_eq
  have hsame : first' = first := by
    rw [List.head?_append, Option.mem_def.1 hfirst] at hfirst'
    simpa using hfirst'.symm
  rw [hstart, hsame]
  exact hfront

end Shape

end

/-- The entries of some nodes, one after the other. -/
theorem forall₂_of_collect {α β : Type} {f : α → Except MapError β} {list : List α}
    {results : List β} (h : collect f list = .ok results) :
    List.Forall₂ (fun a b => f a = .ok b) list results := by
  induction list generalizing results with
  | nil =>
    obtain rfl : [] = results := by simpa [collect] using h
    exact .nil
  | cons a list ih =>
    rw [collect_cons_eq] at h
    obtain ⟨b, hb, h⟩ := exists_of_bind_eq_ok h
    obtain ⟨rest, hrest, h⟩ := exists_of_bind_eq_ok h
    obtain rfl := Except.ok.inj h
    exact .cons hb (ih hrest)

end Mapping

/-! ### Documents -/

theorem exists_ok_of_isOk {ε α : Type} {result : Except ε α} (h : result.isOk = true) :
    ∃ a, result = .ok a := by
  cases result with
  | error e => simp [Except.isOk, Except.toBool] at h
  | ok a => exact ⟨a, rfl⟩

theorem exists_error_of_not_isOk {ε α : Type} {result : Except ε α} (h : (!result.isOk) = true) :
    ∃ e, result = .error e := by
  cases result with
  | error e => exact ⟨e, rfl⟩
  | ok a => simp [Except.isOk, Except.toBool] at h

theorem exists_ok_and_of_any {ε α : Type} {result : Except ε α} {p : α → Bool}
    (h : result.toOption.any p = true) : ∃ a, result = .ok a ∧ p a = true := by
  cases result with
  | error e => simp [Except.toOption] at h
  | ok a => exact ⟨a, rfl, by simpa [Except.toOption] using h⟩

theorem exists_error_and_of_any {ε α : Type} {result : Except ε α} {p : ε → Bool}
    (h : (match result with | .error e => p e | .ok _ => false) = true) :
    ∃ e, result = .error e ∧ p e = true := by
  cases result with
  | error e => exact ⟨e, rfl, h⟩
  | ok a => cases h

/-- A document is made step by step: the comments of the file, the tree with them, and the two
tables. -/
theorem mapFile_steps {source : Source} {file : File} {strictness : Strictness} {doc : Document}
    (h : mapFile source file strictness = .ok doc) :
    ∃ comments, Mapping.commentLeaves ⟨source, strictness⟩ file.allComments = .ok comments ∧
      Mapping.fileNode ⟨source, strictness⟩ file (.start comments) = .ok (some doc.tree) ∧
      Mapping.collect (Mapping.commentEntry ⟨source, strictness⟩) comments = .ok doc.comments ∧
      Mapping.collect (Mapping.tokenEntry ⟨source, strictness⟩)
        (doc.tree.leaves.filter Mapping.isListed) = .ok doc.tokens := by
  unfold mapFile at h
  split at h
  · rw [Mapping.document_eq] at h
    obtain ⟨comments, hcomments, h⟩ := exists_of_bind_eq_ok h
    obtain ⟨tree, htree, h⟩ := exists_of_bind_eq_ok h
    cases tree with
    | none => cases h
    | some tree =>
      obtain ⟨commentTable, hcommentTable, h⟩ := exists_of_bind_eq_ok h
      obtain ⟨tokenTable, htokenTable, h⟩ := exists_of_bind_eq_ok h
      obtain rfl := Except.ok.inj h
      exact ⟨comments, hcomments, htree, hcommentTable, htokenTable⟩
  · cases h

/-- **A document** is made of the comments of the file, a tree, and two tables read off them. -/
theorem mapFile_eq_ok {source : Source} {file : File} {strictness : Strictness} {doc : Document}
    (h : mapFile source file strictness = .ok doc) :
    ∃ comments before last,
      Mapping.commentLeaves ⟨source, strictness⟩ file.allComments = .ok comments ∧
      Mapping.Shape ⟨source, strictness⟩ file comments before last doc.tree ∧
      Mapping.collect (Mapping.commentEntry ⟨source, strictness⟩) comments = .ok doc.comments ∧
      Mapping.collect (Mapping.tokenEntry ⟨source, strictness⟩)
        (doc.tree.leaves.filter Mapping.isListed) = .ok doc.tokens := by
  obtain ⟨comments, hcomments, htree, htables⟩ := mapFile_steps h
  have hslices := fun leaf hleaf => (Mapping.isSlice_of_commentLeaves hcomments leaf hleaf).1
  obtain ⟨before, last, hshape⟩ := Mapping.fileNode_eq_ok hslices rfl htree
  exact ⟨comments, before, last, hcomments, hshape, htables⟩

end GoTree
