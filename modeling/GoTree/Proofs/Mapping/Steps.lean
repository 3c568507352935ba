import Mathlib.Tactic.Common
import GoTree.Mapping.File

/-!
# The mapping as a chain of steps

Every function of the mapping stops at the first error of a step and goes on with its result
otherwise.  Here each of them is written as such a chain, one equation per function, so that what is
said of two runs of the mapping needs an argument about one step after the other only.  A run that
succeeds is taken apart into the results of its steps.

## Main results

* `Mapping.fillFrom_cons_eq`, `Mapping.append_some_eq`: filling a gap and adding a child
* `Mapping.realize_group_eq`, `Mapping.realizeAll_cons_eq`: realizing plans
* `Mapping.packageNode_eq`, `Mapping.fileNode_eq`: the tree of a file
* `Mapping.packageNode_steps`, `Mapping.fileNode_steps`: the steps of a tree that was made
* `Mapping.collect_cons_eq`, `Mapping.document_eq`: the tables of a file and its document
-/

namespace GoTree

theorem exists_of_bind_eq_ok {ε α β : Type} {x : Except ε α} {f : α → Except ε β} {b : β}
    (h : x >>= f = .ok b) : ∃ a, x = .ok a ∧ f a = .ok b := by
  cases x with
  | error e => cases h
  | ok a => exact ⟨a, rfl, h⟩

namespace Mapping

variable (m : Mapping)

theorem expect_eq (tags : List Tag) (pos : Offset) (expected label : String) :
    m.expect tags pos expected label =
      (m.leafAt tags pos (m.tokenEnd pos expected).1 label >>= fun leaf =>
        match leaf with
        | none => .ok none
        | some node =>
          if node.value = (m.tokenEnd pos expected).2 then .ok (some node)
          else m.strictness.tolerate (.tokenMismatch node.value (m.tokenEnd pos expected).2
            (m.source.locate pos (m.tokenEnd pos expected).1)) none) := by
  rw [expect]
  rcases m.tokenEnd pos expected with ⟨stop, wanted⟩
  dsimp only
  rcases m.leafAt tags pos stop label with e | _ | node <;> rfl

theorem pieceLeaf_unaccounted_eq (start stop : Nat) :
    m.pieceLeaf (.unaccounted start stop) =
      (m.strictness.tolerate (.missingToken (String.ofList ((m.text.slice? start stop).getD []))
        (m.source.locate start stop)) () >>= fun _ => m.leafAt [] start stop "") := by
  rw [pieceLeaf]
  generalize m.strictness.tolerate _ () = kept
  cases kept <;> rfl

theorem pieceLeaves_cons_eq (piece : GapPiece) (rest : List GapPiece) :
    m.pieceLeaves (piece :: rest) = (do
      let leaf ← m.pieceLeaf piece
      let leaves ← m.pieceLeaves rest
      return leaf.toList ++ leaves) := by
  rw [pieceLeaves]
  cases m.pieceLeaf piece with
  | error e => rfl
  | ok leaf => cases m.pieceLeaves rest <;> rfl

theorem fillFrom_nil_eq (stop start : Nat) (passed : List Node) :
    m.fillFrom stop start passed [] = (do
      let leaves ← m.punctuation start stop
      return (leaves, ⟨passed, []⟩)) := by
  rw [fillFrom]
  cases m.punctuation start stop <;> rfl

theorem fillFrom_cons_eq (stop start : Nat) (passed ahead : List Node) (comment : Node) :
    m.fillFrom stop start passed (comment :: ahead) =
      if comment.start < start then m.fillFrom stop start (comment :: passed) ahead
      else if stop < comment.stop then do
        let leaves ← m.punctuation start stop
        return (leaves, ⟨passed, comment :: ahead⟩)
      else do
        let leaves ← m.punctuation start comment.start
        let filled ← m.fillFrom stop comment.stop (comment :: passed) ahead
        return (leaves ++ comment :: filled.1, filled.2) := by
  rw [fillFrom]
  refine if_congr Iff.rfl rfl (if_congr Iff.rfl ?_ ?_)
  · cases m.punctuation start stop <;> rfl
  · cases m.punctuation start comment.start with
    | error e => rfl
    | ok leaves => cases m.fillFrom stop comment.stop (comment :: passed) ahead <;> rfl

theorem append_some_eq {children : List Node} {last : Node} (hlast : children.getLast? = some last)
    (child : Node) (cursor : CommentCursor) :
    m.append children (some child) cursor =
      if child.start < last.stop then .error (.overlap (m.source.locate last.stop child.start))
      else do
        let filled ← m.fillGap last.stop child.start cursor
        return (children ++ filled.1 ++ [child], filled.2) := by
  rw [append, hlast]
  refine if_congr Iff.rfl rfl ?_
  cases m.fillGap last.stop child.start cursor <;> rfl

/-! ### Plans -/

theorem realize_token_eq (tags : List Tag) (pos : Offset) (text label : String)
    (cursor : CommentCursor) :
    m.realize (.token tags pos text label) cursor = (do
      let leaf ← m.expect tags pos text label
      return (leaf, cursor)) := by
  rw [realize]
  cases m.expect tags pos text label <;> rfl

theorem realize_group_eq (tags : List Tag) (label : String) (parts : List Plan)
    (cursor : CommentCursor) :
    m.realize (.group tags label parts) cursor = (do
      let made ← m.realizeAll parts [] cursor
      return (Node.group? tags label made.1, made.2)) := by
  rw [realize]
  cases m.realizeAll parts [] cursor <;> rfl

theorem realizeAll_cons_eq (part : Plan) (rest : List Plan) (children : List Node)
    (cursor : CommentCursor) :
    m.realizeAll (part :: rest) children cursor =
      (m.realize part cursor >>= fun made =>
        m.append children made.1 made.2 >>= fun grown => m.realizeAll rest grown.1 grown.2) := by
  rw [realizeAll]
  rcases m.realize part cursor with e | ⟨child, cursor⟩
  · rfl
  · dsimp only [bind, Except.bind]
    cases m.append children child cursor <;> rfl

/-! ### The tree of a file -/

theorem commentLeaves_cons_eq (comment : Comment) (rest : List Comment) :
    m.commentLeaves (comment :: rest) = (do
      let leaf ← m.expect (commentTags comment) comment.slash comment.text ""
      let leaves ← m.commentLeaves rest
      return leaf.toList ++ leaves) := by
  rw [commentLeaves]
  cases m.expect (commentTags comment) comment.slash comment.text "" with
  | error e => rfl
  | ok leaf => cases m.commentLeaves rest <;> rfl

theorem packageLead_some_eq (leaf : Node) (cursor : CommentCursor) :
    m.packageLead (some leaf) cursor =
      (m.fillGap m.textStart leaf.start cursor >>= fun lead =>
        m.append lead.1 (some leaf) lead.2) := by
  rw [packageLead]
  cases m.fillGap m.textStart leaf.start cursor <;> rfl

theorem packageNode_eq (file : File) (cursor : CommentCursor) :
    m.packageNode file cursor =
      (m.expect [.keyword] file.package Keyword.packageKw.spelling "" >>= fun keyword =>
        m.packageLead keyword cursor >>= fun lead =>
          m.realizeAll [file.name.plan [] "Name"] lead.1 lead.2 >>= fun made =>
            pure (Node.group? [.package] "File.Package" made.1, made.2)) := by
  rw [packageNode]
  cases m.expect [.keyword] file.package Keyword.packageKw.spelling "" with
  | error e => rfl
  | ok keyword =>
    dsimp only [bind, Except.bind]
    rcases m.packageLead keyword cursor with e | ⟨children, cursor⟩
    · rfl
    · dsimp only
      cases m.realizeAll [file.name.plan [] "Name"] children cursor <;> rfl

theorem fileNode_eq (file : File) (cursor : CommentCursor) :
    m.fileNode file cursor =
      (m.packageNode file cursor >>= fun package =>
        m.realizeAll (m.fileParts file) package.1.toList package.2 >>= fun made =>
          pure (Node.group? [.compilationUnit] "(File)" made.1)) := by
  rw [fileNode]
  rcases m.packageNode file cursor with e | ⟨package, cursor⟩
  · rfl
  · dsimp only [bind, Except.bind]
    cases m.realizeAll (m.fileParts file) package.toList cursor <;> rfl

section

variable {m : Mapping} {file : File}

/-- What stands before the package keyword is a gap, behind which the keyword is appended. -/
theorem packageLead_some_steps {leaf : Node} {children : List Node} {cursor cursor' : CommentCursor}
    (h : m.packageLead (some leaf) cursor = .ok (children, cursor')) :
    ∃ lead cursor₁, m.fillGap m.textStart leaf.start cursor = .ok (lead, cursor₁) ∧
      m.append lead (some leaf) cursor₁ = .ok (children, cursor') := by
  rw [packageLead_some_eq] at h
  obtain ⟨⟨lead, cursor₁⟩, hgap, happend⟩ := exists_of_bind_eq_ok h
  exact ⟨lead, cursor₁, hgap, happend⟩

/-- **A package clause** is made of its keyword, what stands before it, and the name. -/
theorem packageNode_steps {package : Option Node} {cursor cursor' : CommentCursor}
    (h : m.packageNode file cursor = .ok (package, cursor')) :
    ∃ keyword lead cursor₁ children,
      m.expect [.keyword] file.package Keyword.packageKw.spelling "" = .ok keyword ∧
      m.packageLead keyword cursor = .ok (lead, cursor₁) ∧
      m.realizeAll [file.name.plan [] "Name"] lead cursor₁ = .ok (children, cursor') ∧
      package = Node.group? [.package] "File.Package" children := by
  rw [packageNode_eq] at h
  obtain ⟨keyword, hkeyword, h⟩ := exists_of_bind_eq_ok h
  obtain ⟨⟨lead, cursor₁⟩, hlead, h⟩ := exists_of_bind_eq_ok h
  obtain ⟨⟨children, cursor₂⟩, hname, h⟩ := exists_of_bind_eq_ok h
  obtain ⟨rfl, rfl⟩ := Prod.mk.inj (Except.ok.inj h)
  exact ⟨keyword, lead, cursor₁, children, hkeyword, hlead, hname, rfl⟩

/-- **The tree of a file** is made of its package clause and its other parts. -/
theorem fileNode_steps {tree : Option Node} {cursor : CommentCursor}
    (h : m.fileNode file cursor = .ok tree) :
    ∃ package cursor₁ children cursor₂, m.packageNode file cursor = .ok (package, cursor₁) ∧
      m.realizeAll (m.fileParts file) package.toList cursor₁ = .ok (children, cursor₂) ∧
      tree = Node.group? [.compilationUnit] "(File)" children := by
  rw [fileNode_eq] at h
  obtain ⟨⟨package, cursor₁⟩, hpackage, h⟩ := exists_of_bind_eq_ok h
  obtain ⟨⟨children, cursor₂⟩, hparts, h⟩ := exists_of_bind_eq_ok h
  exact ⟨package, cursor₁, children, cursor₂, hpackage, hparts, (Except.ok.inj h).symm⟩

end

/-! ### Tables -/

theorem commentEntry_eq (node : Node) :
    m.commentEntry node =
      (m.lineRange node >>= fun range => pure (CommentEntry.ofText node.value range)) := by
  rw [commentEntry]
  cases m.lineRange node <;> rfl

theorem tokenEntry_eq (node : Node) :
    m.tokenEntry node =
      (m.lineRange node >>= fun range => pure ⟨node.value, range, .ofNode node⟩) := by
  rw [tokenEntry]
  cases m.lineRange node <;> rfl

theorem collect_cons_eq {α β : Type} (f : α → Except MapError β) (a : α) (rest : List α) :
    collect f (a :: rest) = (do
      let b ← f a
      let bs ← collect f rest
      return b :: bs) := by
  rw [collect]
  cases f a with
  | error e => rfl
  | ok b => cases collect f rest <;> rfl

theorem document_eq (file : File) :
    m.document file =
      (m.commentLeaves file.allComments >>= fun comments =>
        m.fileNode file (.start comments) >>= fun tree =>
          match tree with
          | none => .error (.invalidSpan (m.source.locate 0 m.text.size))
          | some tree =>
            collect m.commentEntry comments >>= fun commentTable =>
              collect m.tokenEntry (tree.leaves.filter isListed) >>= fun tokenTable =>
                pure ⟨tree, commentTable, tokenTable⟩) := by
  rw [document]
  rcases m.commentLeaves file.allComments with e | comments
  · rfl
  · dsimp only [bind, Except.bind]
    rcases m.fileNode file (.start comments) with e | _ | tree
    · rfl
    · rfl
    · dsimp only
      rcases collect m.commentEntry comments with e | commentTable
      · rfl
      · dsimp only
        cases collect m.tokenEntry (tree.leaves.filter isListed) <;> rfl

end Mapping

end GoTree
