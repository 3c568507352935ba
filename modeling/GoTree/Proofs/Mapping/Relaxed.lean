import GoTree.Proofs.Mapping.Complete
import GoTree.Proofs.Mapping.Steps

/-!
# Relaxed mappings refine strict ones

A strict and a relaxed mapping of the same source differ in one place only: what they do with an
error that can be tolerated.  Up to the first such error the two take the same steps, and there the
strict one stops; so whatever a strict mapping makes, the relaxed one makes too.  The relaxed one
stops only where nothing can be tolerated.

## Main definitions

* `Lockstep`: a strict and a relaxed run that agree as far as the strict one goes

## Main results

* `Lockstep.bind`: runs stay in lockstep from one step to the next
* `Mapping.lockstep_realize`, `Mapping.lockstep_fileNode`: plans and trees
* `Mapping.fileNode_ne_none`: a file always has a tree, if only for its end
* `mapFile_relaxed`: relaxed mappings refine strict ones, and the failures they have left
-/

namespace GoTree

/-- **A strict and a relaxed run in lockstep:** the result of the strict one is that of the relaxed
one, and the relaxed one stops only at nodes that overlap or at a token outside the text. -/
structure Lockstep {α : Type} (strict relaxed : Except MapError α) : Prop where
  agrees : ∀ a, strict = .ok a → relaxed = .ok a
  fatal : ∀ e, relaxed = .error e →
    (∃ location, e = .overlap location) ∨ ∃ location, e = .invalidSpan location

namespace Lockstep

variable {α β : Type}

theorem ok (a : α) : Lockstep (.ok a) (.ok a) :=
  ⟨fun _ h => h, by simp⟩

theorem of_ok {result : Except MapError α} {a : α} (h : result = .ok a) :
    Lockstep result result := by
  rw [h]
  exact .ok a

theorem overlap (location : Location) :
    Lockstep (.error (.overlap location) : Except MapError α) (.error (.overlap location)) :=
  ⟨by simp, by simp⟩

theorem invalidSpan (location : Location) :
    Lockstep (.error (.invalidSpan location) : Except MapError α)
      (.error (.invalidSpan location)) :=
  ⟨by simp, by simp⟩

/-- Where the two runs differ: the strict one stops, and the relaxed one goes on. -/
theorem tolerate {e : MapError} (h : e.isTolerable = true) (fallback : α) :
    Lockstep (Strictness.strict.tolerate e fallback) (Strictness.relaxed.tolerate e fallback) := by
  rw [Strictness.tolerate_strict, Strictness.tolerate_relaxed, if_pos h]
  exact ⟨by simp, by simp⟩

/-- **Runs stay in lockstep** if their first steps do and if, after the same result of that step,
what follows does. -/
theorem bind {strict relaxed : Except MapError α} {f g : α → Except MapError β}
    (h : Lockstep strict relaxed) (hnext : ∀ a, relaxed = .ok a → Lockstep (f a) (g a)) :
    Lockstep (strict >>= f) (relaxed >>= g) := by
  constructor
  · intro b hb
    cases hstrict : strict with
    | error e =>
      rw [hstrict] at hb
      cases hb
    | ok a =>
      rw [hstrict] at hb
      rw [h.agrees a hstrict]
      exact (hnext a (h.agrees a hstrict)).agrees b hb
  · intro e he
    cases hrelaxed : relaxed with
    | error e' =>
      rw [hrelaxed] at he
      obtain rfl : e' = e := by simpa [Bind.bind, Except.bind] using he
      exact h.fatal e' hrelaxed
    | ok a =>
      rw [hrelaxed] at he
      exact (hnext a hrelaxed).fatal e he

theorem ite {p : Prop} [Decidable p] {strict strict' relaxed relaxed' : Except MapError α}
    (h : Lockstep strict relaxed) (h' : Lockstep strict' relaxed') :
    Lockstep (if p then strict else strict') (if p then relaxed else relaxed') := by
  split
  · exact h
  · exact h'

end Lockstep

namespace Mapping

/-! ### Leaves -/

section

variable (source : Source) (tags : List Tag) (label : String)

theorem lockstep_leafAt (start stop : Nat) :
    Lockstep (leafAt ⟨source, .strict⟩ tags start stop label)
      (leafAt ⟨source, .relaxed⟩ tags start stop label) := by
  refine .ite (.invalidSpan _) (.ite (.tolerate rfl _) ?_)
  simp only [text]
  cases source.text.lineColumn? start with
  | none => exact .tolerate rfl _
  | some p =>
    cases source.text.slice? start stop with
    | none => exact .tolerate rfl _
    | some value => exact .ok _

theorem lockstep_expect (pos : Offset) (expected : String) :
    Lockstep (expect ⟨source, .strict⟩ tags pos expected label)
      (expect ⟨source, .relaxed⟩ tags pos expected label) := by
  rw [expect_eq, expect_eq]
  refine (lockstep_leafAt source tags label pos _).bind fun leaf _ => ?_
  cases leaf with
  | none => exact .ok none
  | some node => exact .ite (.ok _) (.tolerate rfl _)

end

/-! ### Gaps -/

section

variable (source : Source)

theorem lockstep_pieceLeaf (piece : GapPiece) :
    Lockstep (pieceLeaf ⟨source, .strict⟩ piece) (pieceLeaf ⟨source, .relaxed⟩ piece) := by
  cases piece with
  | implied word start stop => exact lockstep_leafAt source _ _ start stop
  | unaccounted start stop =>
    rw [pieceLeaf_unaccounted_eq, pieceLeaf_unaccounted_eq]
    exact (Lockstep.tolerate rfl ()).bind fun _ _ => lockstep_leafAt source _ _ start stop

theorem lockstep_pieceLeaves (pieces : List GapPiece) :
    Lockstep (pieceLeaves ⟨source, .strict⟩ pieces) (pieceLeaves ⟨source, .relaxed⟩ pieces) := by
  induction pieces with
  | nil => exact .ok []
  | cons piece pieces ih =>
    rw [pieceLeaves_cons_eq, pieceLeaves_cons_eq]
    exact (lockstep_pieceLeaf source piece).bind fun leaf _ => ih.bind fun leaves _ => .ok _

theorem lockstep_punctuation (start stop : Nat) :
    Lockstep (punctuation ⟨source, .strict⟩ start stop)
      (punctuation ⟨source, .relaxed⟩ start stop) :=
  lockstep_pieceLeaves source _

theorem lockstep_fillFrom (stop start : Nat) (passed ahead : List Node) :
    Lockstep (fillFrom ⟨source, .strict⟩ stop start passed ahead)
      (fillFrom ⟨source, .relaxed⟩ stop start passed ahead) := by
  induction ahead generalizing start passed with
  | nil =>
    rw [fillFrom_nil_eq, fillFrom_nil_eq]
    exact (lockstep_punctuation source start stop).bind fun leaves _ => .ok _
  | cons comment ahead ih =>
    rw [fillFrom_cons_eq, fillFrom_cons_eq]
    refine .ite (ih start _) (.ite ?_ ?_)
    · exact (lockstep_punctuation source start stop).bind fun leaves _ => .ok _
    · exact (lockstep_punctuation source start comment.start).bind fun leaves _ =>
        (ih comment.stop _).bind fun filled _ => .ok _

theorem lockstep_append (children : List Node) (child : Option Node) (cursor : CommentCursor) :
    Lockstep (append ⟨source, .strict⟩ children child cursor)
      (append ⟨source, .relaxed⟩ children child cursor) := by
  cases child with
  | none => exact .ok _
  | some child =>
    cases hlast : children.getLast? with
    | none =>
      simp only [append, hlast]
      exact .ok _
    | some last =>
      rw [append_some_eq _ hlast, append_some_eq _ hlast]
      refine .ite (.overlap _) ?_
      exact (lockstep_fillFrom source _ _ _ _).bind fun filled _ => .ok _

/-! ### Plans -/

mutual

/-- **Realizing a plan stays in lockstep**, and so does realizing several. -/
theorem lockstep_realize : (plan : Plan) → (cursor : CommentCursor) →
    Lockstep (realize ⟨source, .strict⟩ plan cursor) (realize ⟨source, .relaxed⟩ plan cursor)
  | .nothing, cursor => by
    rw [realize, realize]
    exact .ok _
  | .token tags pos text label, cursor => by
    rw [realize_token_eq, realize_token_eq]
    exact (lockstep_expect source tags label pos text).bind fun leaf _ => .ok _
  | .group tags label parts, cursor => by
    rw [realize_group_eq, realize_group_eq]
    exact (lockstep_realizeAll parts [] cursor).bind fun made _ => .ok _

theorem lockstep_realizeAll : (plans : List Plan) → (children : List Node) →
    (cursor : CommentCursor) →
    Lockstep (realizeAll ⟨source, .strict⟩ plans children cursor)
      (realizeAll ⟨source, .relaxed⟩ plans children cursor)
  | [], children, cursor => by
    rw [realizeAll, realizeAll]
    exact .ok _
  | plan :: plans, children, cursor => by
    rw [realizeAll_cons_eq, realizeAll_cons_eq]
    exact (lockstep_realize plan cursor).bind fun made _ =>
      (lockstep_append source children made.1 made.2).bind fun grown _ =>
        lockstep_realizeAll plans grown.1 grown.2

end

/-! ### Files -/

theorem lockstep_commentLeaves (comments : List Comment) :
    Lockstep (commentLeaves ⟨source, .strict⟩ comments)
      (commentLeaves ⟨source, .relaxed⟩ comments) := by
  induction comments with
  | nil => exact .ok []
  | cons comment comments ih =>
    rw [commentLeaves_cons_eq, commentLeaves_cons_eq]
    exact (lockstep_expect source _ _ _ _).bind fun leaf _ => ih.bind fun leaves _ => .ok _

theorem lockstep_packageLead (keyword : Option Node) (cursor : CommentCursor) :
    Lockstep (packageLead ⟨source, .strict⟩ keyword cursor)
      (packageLead ⟨source, .relaxed⟩ keyword cursor) := by
  cases keyword with
  | none => exact .ok _
  | some leaf =>
    rw [packageLead_some_eq, packageLead_some_eq]
    exact (lockstep_fillFrom source _ _ _ _).bind fun lead _ => lockstep_append source _ _ _

theorem lockstep_packageNode (file : File) (cursor : CommentCursor) :
    Lockstep (packageNode ⟨source, .strict⟩ file cursor)
      (packageNode ⟨source, .relaxed⟩ file cursor) := by
  rw [packageNode_eq, packageNode_eq]
  exact (lockstep_expect source _ _ _ _).bind fun keyword _ =>
    (lockstep_packageLead source keyword cursor).bind fun lead _ =>
      (lockstep_realizeAll source _ _ _).bind fun made _ => .ok _

theorem lockstep_fileNode (file : File) (cursor : CommentCursor) :
    Lockstep (fileNode ⟨source, .strict⟩ file cursor)
      (fileNode ⟨source, .relaxed⟩ file cursor) := by
  rw [fileNode_eq, fileNode_eq]
  exact (lockstep_packageNode source file cursor).bind fun package _ =>
    (lockstep_realizeAll source _ _ _).bind fun made _ => .ok _

/-- **The whole mapping stays in lockstep.**  The tables are read off the source alone, and once
there is a tree they can be read off. -/
theorem lockstep_document (file : File) :
    Lockstep (document ⟨source, .strict⟩ file) (document ⟨source, .relaxed⟩ file) := by
  rw [document_eq, document_eq]
  refine (lockstep_commentLeaves source file.allComments).bind fun comments hcomments => ?_
  refine (lockstep_fileNode source file (.start comments)).bind fun tree htree => ?_
  cases tree with
  | none => exact .invalidSpan _
  | some tree =>
    -- the tables of a tree can always be made, so nothing is left that could fail
    obtain ⟨doc, hdoc, -⟩ := exists_document hcomments htree
    rw [document_eq, hcomments] at hdoc
    change (fileNode _ file (.start comments) >>= _) = _ at hdoc
    rw [htree] at hdoc
    exact .of_ok hdoc

end

/-- Appending a child leaves children. -/
theorem append_some_ne_nil {m : Mapping} {children children' : List Node} {child : Node}
    {cursor cursor' : CommentCursor}
    (h : m.append children (some child) cursor = .ok (children', cursor')) : children' ≠ [] := by
  rcases append_eq_ok h with ⟨-, rfl, -⟩ | ⟨last, gap, -, -, -, rfl⟩ <;> simp

/-- **A file always has a tree**, if only for its end: that leaf is made whatever the text is. -/
theorem fileNode_ne_none (m : Mapping) (file : File) (cursor : CommentCursor) :
    m.fileNode file cursor ≠ .ok none := by
  intro hnone
  rw [fileNode_eq] at hnone
  obtain ⟨package, -, hnone⟩ := exists_of_bind_eq_ok hnone
  obtain ⟨⟨children, cursor'⟩, hparts, hnone⟩ := exists_of_bind_eq_ok hnone
  -- the end of the file is the last part, whatever has been made of the parts before it
  rw [fileParts, ← List.singleton_append, realizeAll_append_eq_ok] at hparts
  obtain ⟨before, cursor₁, -, hend⟩ := hparts
  obtain ⟨last, -, hmade⟩ := expect_end m
  obtain ⟨result, cursor₂, hresult, happend⟩ := realizeAll_singleton_eq_ok.1 hend
  obtain ⟨rfl, rfl⟩ : some last = result ∧ cursor₁ = cursor₂ := by
    simpa [realize, hmade] using hresult
  obtain ⟨first, rest, rfl⟩ := List.exists_cons_of_ne_nil (append_some_ne_nil happend)
  obtain ⟨_, -, hgroup⟩ := Node.group?_cons [.compilationUnit] "(File)" first rest
  rw [hgroup] at hnone
  cases hnone

end Mapping

/-- **Relaxed mappings refine strict ones.**  What a strict mapping makes, the relaxed one makes too,
the same tree with the same tables.  A relaxed mapping fails only because of overlapping nodes, a
token outside the text or a syntax tree of another size.  In either strictness there is always a tree
once the tokens are found, and every comment and every leaf has its lines and columns. -/
theorem mapFile_relaxed (source : Source) (file : File) :
    (∀ doc, mapFile source file .strict = .ok doc → mapFile source file .relaxed = .ok doc) ∧
      (∀ e, mapFile source file .relaxed = .error e →
        (∃ location, e = .overlap location) ∨ (∃ location, e = .invalidSpan location) ∨
          e = .fileSize file.size source.text.size source.path) ∧
      ∀ (strictness : Strictness) (comments : List Node),
        Mapping.commentLeaves ⟨source, strictness⟩ file.allComments = .ok comments →
          (∀ comment ∈ comments, ∃ range,
            Mapping.lineRange ⟨source, strictness⟩ comment = .ok range) ∧
          Mapping.fileNode ⟨source, strictness⟩ file (.start comments) ≠ .ok none ∧
          ∀ tree, Mapping.fileNode ⟨source, strictness⟩ file (.start comments) = .ok (some tree) →
            ∀ leaf ∈ tree.leaves, ∃ range, Mapping.lineRange ⟨source, strictness⟩ leaf = .ok range := by
  refine ⟨?_, ?_, ?_⟩
  · -- both mappings run in step once the size is right
    intro doc hdoc
    unfold mapFile at hdoc ⊢
    split at hdoc
    · rename_i hsize
      rw [if_pos hsize]
      exact (Mapping.lockstep_document source file).agrees doc hdoc
    · simp at hdoc
  · intro e he
    unfold mapFile at he
    split at he
    · rcases (Mapping.lockstep_document source file).fatal e he with hoverlap | hspan
      · exact .inl hoverlap
      · exact .inr (.inl hspan)
    · exact .inr (.inr (by simpa using he.symm))
  · intro strictness comments hcomments
    refine ⟨?_, Mapping.fileNode_ne_none _ _ _, ?_⟩
    · intro comment hcomment
      exact Mapping.exists_lineRange (Mapping.isSlice_of_commentLeaves hcomments comment hcomment).1
    · intro tree htree leaf hleaf
      exact Mapping.exists_lineRange (Mapping.isSlice_of_fileNode hcomments htree leaf hleaf)

/-- A text that both mappings make the same of, and one in which a carriage return inside a literal
makes a leaf run into the next one. -/
theorem mapFile_relaxed_call :
    (∃ file doc, parse "package p // clause\nvar x = f(1)\n".toList = .ok file ∧
      mapFile ⟨"p.go", "package p // clause\nvar x = f(1)\n".toList⟩ file .strict = .ok doc ∧
      mapFile ⟨"p.go", "package p // clause\nvar x = f(1)\n".toList⟩ file .relaxed = .ok doc) ∧
    ∃ file e, parse "package p\nvar x = f(\"a\rb\")\n".toList = .ok file ∧
      mapFile ⟨"p.go", "package p\nvar x = f(\"a\rb\")\n".toList⟩ file .relaxed = .error e ∧
      ((∃ location, e = .overlap location) ∨ (∃ location, e = .invalidSpan location) ∨
        e = .fileSize file.size 27 "p.go") := by
  constructor
  · obtain ⟨file, hparse, hmapped⟩ :
        ∃ file, parse "package p // clause\nvar x = f(1)\n".toList = .ok file ∧
          (mapFile ⟨"p.go", "package p // clause\nvar x = f(1)\n".toList⟩ file .strict).isOk := by
      refine exists_ok_and_of_any ?_
      decide +kernel
    obtain ⟨doc, hdoc⟩ := exists_ok_of_isOk hmapped
    exact ⟨file, doc, hparse, hdoc, (mapFile_relaxed _ file).1 doc hdoc⟩
  · obtain ⟨file, hparse, hfailed⟩ :
        ∃ file, parse "package p\nvar x = f(\"a\rb\")\n".toList = .ok file ∧
          !(mapFile ⟨"p.go", "package p\nvar x = f(\"a\rb\")\n".toList⟩ file .relaxed).isOk := by
      refine exists_ok_and_of_any ?_
      decide +kernel
    obtain ⟨e, he⟩ := exists_error_of_not_isOk hfailed
    exact ⟨file, e, hparse, he, (mapFile_relaxed _ file).2.1 e he⟩

end GoTree
