import GoTree.Proofs.Mapping.Complete
import GoTree.Proofs.Mapping.Pieces
import GoTree.Proofs.Mapping.Steps

/-!
# The place of the cursor

Filling a gap first moves the cursor back and then passes over what lies before the gap.  When the
comments are in order, these two movements end at one and the same place, wherever the cursor came
from, so nothing that is filled depends on what was filled before.  The first to be shown is filling
onto children of any kind, which may overlap what is added; then, step by step, realizing plans.

The mapping itself only fills gaps behind its last child.  There nothing overlaps, which is why
`Mapping.fillGap` does without the children; `append_eq_fillOnto` says that this makes no
difference.

## Main definitions

* `IsTable`: comments in order, none of them reaching into another
* `CommentCursor.behind`: the cursor behind some of the comments
* `Mapping.push`, `Mapping.fillOnto`: adding a node, and filling a gap, with every overlap an error
* `Mapping.Filled`: comments with the punctuation around them
* `PlaceFree`: a step with the same result wherever the cursor stands

## Main results

* `IsTable.of_forall₂`: the comments of a text are in order
* `Mapping.fillOnto_eq`: filling from any cursor is filling from in front of the gap
* `Mapping.append_eq_fillOnto`: appending a child is filling onto the children and adding the child
* `Mapping.placeFree_realize`: realizing a plan
* `Mapping.fillOnto_eq_of_cursor`: the place of the cursor does not matter
-/

namespace GoTree

/-! ### Comments in order -/

/-- **Comments in order:** sorted by their first bytes, none without bytes, no two with a byte in
common. -/
structure IsTable (comments : List Node) : Prop where
  sorted : comments.Pairwise fun a b => a.start ≤ b.start
  disjoint : comments.Pairwise fun a b => a.stop ≤ b.start ∨ b.stop ≤ a.start
  nonempty : ∀ comment ∈ comments, comment.start < comment.stop

namespace IsTable

variable {comments : List Node}

/-- Every comment ends before the next one starts. -/
theorem pairwise (h : IsTable comments) : comments.Pairwise fun a b => a.stop ≤ b.start := by
  have hboth := h.sorted.and h.disjoint
  refine hboth.imp_of_mem ?_
  rintro a b ha hb ⟨hle, hdisjoint⟩
  have hlt := h.nonempty b hb
  omega

/-- **An offset parts the comments** into those that start before it and those that do not. -/
theorem exists_split (h : IsTable comments) (offset : Nat) :
    ∃ before after, comments = before ++ after ∧ (∀ comment ∈ before, comment.start < offset) ∧
      ∀ comment ∈ after, offset ≤ comment.start := by
  have hsorted := h.sorted
  clear h
  induction comments with
  | nil => exact ⟨[], [], rfl, by simp, by simp⟩
  | cons comment comments ih =>
    rw [List.pairwise_cons] at hsorted
    by_cases hlt : comment.start < offset
    · obtain ⟨before, after, rfl, hbefore, hafter⟩ := ih hsorted.2
      exact ⟨comment :: before, after, rfl, List.forall_mem_cons.2 ⟨hlt, hbefore⟩, hafter⟩
    · refine ⟨[], comment :: comments, rfl, by simp, ?_⟩
      rw [List.forall_mem_cons]
      refine ⟨Nat.not_lt.1 hlt, ?_⟩
      intro other hother
      exact (Nat.not_lt.1 hlt).trans (hsorted.1 other hother)

/-- **The comments of a text are in order.** -/
theorem of_forall₂ {t : Text}
    (h : List.Forall₂ (Token.IsCommentLeaf t) (TokenStream.ofText t).comments comments) :
    IsTable comments := by
  have hbody : ∀ token ∈ (TokenStream.ofText t).comments,
      token ∈ Token.body t ∧ token.kind.isComment = true := by
    intro token htoken
    rw [TokenStream.comments_eq] at htoken
    exact List.mem_filter.1 htoken
  have htokens : (TokenStream.ofText t).comments.Pairwise fun a b => a.commentStop ≤ b.start := by
    rw [TokenStream.comments_eq]
    refine ((Token.tiles_body t).pairwise.filter _).imp_of_mem ?_
    intro a b ha _ hle
    obtain ⟨hmem, hkind⟩ := List.mem_filter.1 ha
    -- a comment may end before its token does
    exact (Token.blankBetween_commentStop hmem hkind).le.trans hle
  have hpairwise : comments.Pairwise fun a b => a.stop ≤ b.start := by
    have hspans : (comments.map fun node => (node.start, node.stop)).Pairwise
        fun a b => a.2 ≤ b.1 := by
      rw [Token.map_span_of_forall₂ h, List.pairwise_map]
      exact htokens
    rwa [List.pairwise_map] at hspans
  have hnonempty : ∀ comment ∈ comments, comment.start < comment.stop := by
    intro comment hcomment
    obtain ⟨token, htoken, hleaf⟩ := Token.exists_of_mem_forall₂ h hcomment
    obtain ⟨hmem, hkind⟩ := hbody token htoken
    exact hleaf.start_lt_stop hmem hkind
  refine ⟨?_, hpairwise.imp Or.inl, hnonempty⟩
  refine hpairwise.imp_of_mem ?_
  intro a b ha _ hle
  exact (hnonempty a ha).le.trans hle

end IsTable

/-- The cursor behind the first `n` comments. -/
def CommentCursor.behind (comments : List Node) (n : Nat) : CommentCursor :=
  ⟨(comments.take n).reverse, comments.drop n⟩

@[simp]
theorem CommentCursor.toList_behind (comments : List Node) (n : Nat) :
    (behind comments n).toList = comments := by
  simp [behind, toList]

namespace Mapping

/-! ### Filling onto children -/

section Fill

variable (m : Mapping)

/-- **Adds a node** behind children, the last of which must not reach beyond its start. -/
def push (children : List Node) (node : Node) : Except MapError (List Node) :=
  match children.getLast? with
  | none => .ok (children ++ [node])
  | some last =>
    if node.start < last.stop then .error (.overlap (m.source.locate last.stop node.start))
    else .ok (children ++ [node])

/-- Adds the leaves of several tokens of a gap, each before the next one is made. -/
def pushPieces (children : List Node) : List GapPiece → Except MapError (List Node)
  | [] => .ok children
  | piece :: rest =>
    match m.pieceLeaf piece with
    | .error e => .error e
    | .ok none => pushPieces children rest
    | .ok (some leaf) =>
      match m.push children leaf with
      | .error e => .error e
      | .ok grown => pushPieces grown rest

/-- Adds the implied punctuation between two offsets. -/
def pushPunctuation (children : List Node) (start stop : Nat) : Except MapError (List Node) :=
  m.pushPieces children (gapPieces m.text start stop)

/-- Adds the comments ahead that lie between `start` and `stop`, with punctuation around them. -/
def fillOntoFrom (stop : Nat) : (start : Nat) → (children passed ahead : List Node) →
    Except MapError (List Node × CommentCursor)
  | start, children, passed, [] =>
    match m.pushPunctuation children start stop with
    | .error e => .error e
    | .ok grown => .ok (grown, ⟨passed, []⟩)
  | start, children, passed, comment :: ahead =>
    if comment.start < start then fillOntoFrom stop start children (comment :: passed) ahead
    else if stop < comment.stop then
      match m.pushPunctuation children start stop with
      | .error e => .error e
      | .ok grown => .ok (grown, ⟨passed, comment :: ahead⟩)
    else
      match m.pushPunctuation children start comment.start with
      | .error e => .error e
      | .ok grown =>
        match m.push grown comment with
        | .error e => .error e
        | .ok grown => fillOntoFrom stop comment.stop grown (comment :: passed) ahead

/-- **Fills a gap onto children:** adds the comments and the implied punctuation between two
offsets. -/
def fillOnto (children : List Node) (start stop : Nat) (cursor : CommentCursor) :
    Except MapError (List Node × CommentCursor) :=
  m.fillOntoFrom stop start children (cursor.rewind start).passed (cursor.rewind start).ahead

/-- **Comments with the punctuation around them,** from `start` to `stop`. -/
inductive Filled (stop : Nat) : (start : Nat) → (comments nodes : List Node) → Prop where
  | nil {start : Nat} {leaves : List Node} (hleaves : m.punctuation start stop = .ok leaves) :
      Filled stop start [] leaves
  | cons {start : Nat} {comment : Node} {comments leaves nodes : List Node}
      (hleaves : m.punctuation start comment.start = .ok leaves)
      (hrest : Filled stop comment.stop comments nodes) :
      Filled stop start (comment :: comments) (leaves ++ comment :: nodes)

end Fill

variable {m : Mapping}

/-! ### What is added -/

theorem push_eq_ok {children grown : List Node} {node : Node}
    (h : m.push children node = .ok grown) : grown = children ++ [node] := by
  unfold push at h
  split at h
  · simpa using h.symm
  · split at h
    · simp at h
    · simpa using h.symm

theorem pushPieces_eq_ok {children grown : List Node} {pieces : List GapPiece}
    (h : m.pushPieces children pieces = .ok grown) :
    ∃ leaves, m.pieceLeaves pieces = .ok leaves ∧ grown = children ++ leaves := by
  induction pieces generalizing children with
  | nil =>
    obtain rfl : children = grown := by simpa [pushPieces] using h
    exact ⟨[], rfl, (List.append_nil _).symm⟩
  | cons piece rest ih =>
    unfold pushPieces at h
    split at h
    · simp at h
    · rename_i hleaf
      obtain ⟨leaves, hleaves, rfl⟩ := ih h
      exact ⟨leaves, by simp [pieceLeaves, hleaf, hleaves], rfl⟩
    · rename_i leaf hleaf
      split at h
      · simp at h
      · rename_i next hpush
        obtain ⟨leaves, hleaves, rfl⟩ := ih h
        refine ⟨leaf :: leaves, by simp [pieceLeaves, hleaf, hleaves], ?_⟩
        rw [push_eq_ok hpush, List.append_assoc, List.singleton_append]

/-- **What is added** are the comments ahead that end in the gap, with punctuation around them. -/
theorem filled_of_fillOntoFrom {start stop : Nat} {children passed ahead grown : List Node}
    {cursor : CommentCursor} (hahead : ∀ comment ∈ ahead, start ≤ comment.start)
    (hnonempty : ∀ comment ∈ ahead, comment.start < comment.stop)
    (hpairwise : ahead.Pairwise fun a b => a.stop ≤ b.start)
    (h : m.fillOntoFrom stop start children passed ahead = .ok (grown, cursor)) :
    ∃ nodes, grown = children ++ nodes ∧
      m.Filled stop start (ahead.filter fun comment => comment.stop ≤ stop) nodes := by
  induction ahead generalizing start children passed with
  | nil =>
    unfold fillOntoFrom at h
    split at h
    · simp at h
    · rename_i next hpush
      obtain ⟨rfl, -⟩ : next = grown ∧ _ := by simpa using h
      obtain ⟨leaves, hleaves, rfl⟩ := pushPieces_eq_ok hpush
      exact ⟨leaves, rfl, .nil hleaves⟩
  | cons comment ahead ih =>
    rw [List.forall_mem_cons] at hahead hnonempty
    rw [List.pairwise_cons] at hpairwise
    unfold fillOntoFrom at h
    rw [if_neg (Nat.not_lt.2 hahead.1)] at h
    split at h
    · -- the comment ends behind the gap, so the later ones do
      rename_i hbeyond
      have hnone : (comment :: ahead).filter (fun comment => comment.stop ≤ stop) = [] := by
        rw [List.filter_eq_nil_iff, List.forall_mem_cons]
        refine ⟨by simpa using hbeyond, ?_⟩
        intro other hother
        have hle := hpairwise.1 other hother
        have hlt := hnonempty.2 other hother
        simp only [decide_eq_true_eq]
        omega
      split at h
      · simp at h
      · rename_i next hpush
        obtain ⟨rfl, -⟩ : next = grown ∧ _ := by simpa using h
        obtain ⟨leaves, hleaves, rfl⟩ := pushPieces_eq_ok hpush
        rw [hnone]
        exact ⟨leaves, rfl, .nil hleaves⟩
    · rename_i hinside
      split at h
      · simp at h
      · rename_i next hpush
        obtain ⟨leaves, hleaves, rfl⟩ := pushPieces_eq_ok hpush
        split at h
        · simp at h
        · rename_i behind hbehind
          obtain rfl := push_eq_ok hbehind
          obtain ⟨nodes, rfl, hfilled⟩ := ih hpairwise.1 hnonempty.2 hpairwise.2 h
          refine ⟨leaves ++ comment :: nodes, by simp, ?_⟩
          rw [List.filter_cons_of_pos (by simpa using hinside)]
          exact .cons hleaves hfilled

/-! ### Any cursor -/

/-- Comments that start before the gap are passed over. -/
theorem fillOntoFrom_append {start stop : Nat} {children passed before ahead : List Node}
    (h : ∀ comment ∈ before, comment.start < start) :
    m.fillOntoFrom stop start children passed (before ++ ahead) =
      m.fillOntoFrom stop start children (before.reverse ++ passed) ahead := by
  induction before generalizing passed with
  | nil => rfl
  | cons comment before ih =>
    rw [List.forall_mem_cons] at h
    rw [List.cons_append, fillOntoFrom, if_pos h.1, ih h.2, List.reverse_cons, List.append_assoc]
    rfl

/-- **Filling from any cursor** is filling from in front of the gap. -/
theorem fillOnto_eq {start stop : Nat} {children before after : List Node} {cursor : CommentCursor}
    (hcursor : cursor.toList = before ++ after)
    (hbefore : ∀ comment ∈ before, comment.start < start)
    (hafter : ∀ comment ∈ after, start ≤ comment.start) :
    m.fillOnto children start stop cursor =
      m.fillOntoFrom stop start children before.reverse after := by
  -- moving back may stop among the comments before the gap, which are then passed over
  obtain ⟨skipped, hskipped, hahead⟩ := exists_rewind hcursor hafter
  have hskip : ∀ comment ∈ skipped, comment.start < start := by
    intro comment hcomment
    apply hbefore
    rw [hskipped]
    exact List.mem_append_right _ hcomment
  rw [fillOnto, hahead, fillOntoFrom_append hskip]
  conv_rhs => rw [hskipped, List.reverse_append, List.reverse_reverse]

/-! ### Behind the last child -/

/-- The last child, if there is one, ends at `n` or before. -/
def Within (n : Nat) (children : List Node) : Prop :=
  ∀ last ∈ children.getLast?, last.stop ≤ n

theorem within_concat {n : Nat} {children : List Node} {node : Node} (h : node.stop ≤ n) :
    Within n (children ++ [node]) := by
  intro last hlast
  rw [List.getLast?_concat, Option.mem_some_iff] at hlast
  exact hlast ▸ h

theorem Within.mono {n k : Nat} {children : List Node} (h : Within n children) (hle : n ≤ k) :
    Within k children :=
  fun last hlast => (h last hlast).trans hle

/-- A node behind the last child is added. -/
theorem push_of_within {n : Nat} {children : List Node} {node : Node} (h : Within n children)
    (hle : n ≤ node.start) : m.push children node = .ok (children ++ [node]) := by
  unfold push
  split
  · rfl
  · rename_i last hlast
    have hstop := h last hlast
    rw [if_neg (by omega)]

/-- A leaf for a token of a gap spans the bytes of the token. -/
theorem span_of_pieceLeaf {piece : GapPiece} {leaf : Node}
    (h : m.pieceLeaf piece = .ok (some leaf)) :
    leaf.start = piece.start ∧ leaf.stop = piece.stop := by
  cases piece with
  | implied word start stop =>
    obtain ⟨value, p, -, -, -, rfl⟩ := leafAt_eq_ok_some h
    exact ⟨rfl, rfl⟩
  | unaccounted start stop =>
    obtain ⟨value, p, -, -, -, rfl⟩ := leafAt_eq_ok_some (leafAt_of_unaccounted h)
    exact ⟨rfl, rfl⟩

/-- The leaves for tokens of a gap end where the gap does. -/
theorem Within.append_pieceLeaves {pieces : List GapPiece} {children leaves : List Node}
    {stop : Nat} (h : Within stop children) (hpieces : ∀ piece ∈ pieces, piece.stop ≤ stop)
    (hleaves : m.pieceLeaves pieces = .ok leaves) : Within stop (children ++ leaves) := by
  induction pieces generalizing children leaves with
  | nil =>
    obtain rfl : leaves = [] := by simpa [pieceLeaves] using hleaves.symm
    rwa [List.append_nil]
  | cons piece rest ih =>
    rw [List.forall_mem_cons] at hpieces
    obtain ⟨made, others, hleaf, hothers, rfl⟩ := pieceLeaves_cons hleaves
    rw [← List.append_assoc]
    refine ih ?_ hpieces.2 hothers
    cases made with
    | none => rwa [Option.toList_none, List.append_nil]
    | some leaf => exact within_concat ((span_of_pieceLeaf hleaf).2.le.trans hpieces.1)

theorem Within.append_punctuation {children leaves : List Node} {start stop : Nat}
    (h : Within start children) (hle : start ≤ stop)
    (hleaves : m.punctuation start stop = .ok leaves) : Within stop (children ++ leaves) :=
  (h.mono hle).append_pieceLeaves
    (fun piece hpiece => (bounds_of_mem_gapPieces hle piece hpiece).2.2) hleaves

/-- What fills a gap behind the last child ends where the gap does. -/
theorem Filling.within {start stop : Nat} {children passed ahead gap : List Node}
    {cursor : CommentCursor} (h : m.Filling stop start passed ahead gap cursor)
    (hwithin : Within start children) (hle : start ≤ stop) : Within stop (children ++ gap) := by
  induction h generalizing children with
  | skipped _ _ ih => exact ih hwithin hle
  | @found _ comment _ _ leaves rest _ _ hstop _ _ ih =>
    -- the comment is the last child of what follows it
    have hgrown : Within comment.stop (children ++ leaves ++ [comment]) :=
      within_concat (Nat.le_refl _)
    simpa using ih hgrown hstop
  | ended _ hleaves => exact hwithin.append_punctuation hle hleaves

/-- **Tokens behind the last child are added** without an overlap. -/
theorem pushPieces_eq {pieces : List GapPiece} {children : List Node} {n : Nat}
    (hwithin : Within n children)
    (hbounds : ∀ piece ∈ pieces, n ≤ piece.start ∧ piece.start < piece.stop)
    (hpairwise : pieces.Pairwise fun a b => a.stop ≤ b.start) :
    m.pushPieces children pieces =
      (m.pieceLeaves pieces >>= fun leaves => pure (children ++ leaves)) := by
  induction pieces generalizing children n with
  | nil => simp [pushPieces, pieceLeaves, bind, Except.bind, pure, Except.pure]
  | cons piece rest ih =>
    rw [List.forall_mem_cons] at hbounds
    rw [List.pairwise_cons] at hpairwise
    obtain ⟨⟨hstart, hlt⟩, hrest⟩ := hbounds
    -- what follows the token starts where it ends or behind
    have hbehind : ∀ other ∈ rest, piece.stop ≤ other.start ∧ other.start < other.stop :=
      fun other hother => ⟨hpairwise.1 other hother, (hrest other hother).2⟩
    rw [pushPieces, pieceLeaves_cons_eq]
    cases hleaf : m.pieceLeaf piece with
    | error e => rfl
    | ok made =>
      cases made with
      | none =>
        dsimp only [bind, Except.bind]
        rw [ih (hwithin.mono (by omega)) hbehind hpairwise.2]
        cases m.pieceLeaves rest <;> rfl
      | some leaf =>
        obtain ⟨hleafStart, hleafStop⟩ := span_of_pieceLeaf hleaf
        have hpush : m.push children leaf = .ok (children ++ [leaf]) :=
          push_of_within hwithin (by omega)
        have hgrown : Within piece.stop (children ++ [leaf]) := within_concat hleafStop.le
        dsimp only [bind, Except.bind]
        rw [hpush]
        dsimp only
        rw [ih hgrown hbehind hpairwise.2]
        cases m.pieceLeaves rest <;> simp [bind, Except.bind, pure, Except.pure]

/-- Punctuation behind the last child is added without an overlap. -/
theorem pushPunctuation_eq {children : List Node} {start stop : Nat}
    (hwithin : Within start children) (hle : start ≤ stop) :
    m.pushPunctuation children start stop =
      (m.punctuation start stop >>= fun leaves => pure (children ++ leaves)) := by
  refine pushPieces_eq hwithin ?_ (pairwise_gapPieces ..)
  intro piece hpiece
  obtain ⟨hstart, hlt, -⟩ := bounds_of_mem_gapPieces hle piece hpiece
  exact ⟨hstart, hlt⟩

/-- **Filling behind the last child** adds what the gap is filled with. -/
theorem fillOntoFrom_eq {start stop : Nat} {children : List Node}
    (hwithin : Within start children) (hle : start ≤ stop) (passed ahead : List Node) :
    m.fillOntoFrom stop start children passed ahead =
      (m.fillFrom stop start passed ahead >>= fun filled =>
        pure (children ++ filled.1, filled.2)) := by
  induction ahead generalizing start children passed with
  | nil =>
    rw [fillOntoFrom, fillFrom_nil_eq, pushPunctuation_eq hwithin hle]
    cases m.punctuation start stop <;> rfl
  | cons comment ahead ih =>
    rw [fillOntoFrom, fillFrom_cons_eq]
    split
    · -- the comment starts before the gap
      exact ih hwithin hle _
    · rename_i hge
      split
      · -- the comment ends behind the gap
        rw [pushPunctuation_eq hwithin hle]
        cases m.punctuation start stop <;> rfl
      · -- the comment lies in the gap, and is the last child of what follows
        rename_i hinside
        have hstart := Nat.not_lt.1 hge
        rw [pushPunctuation_eq hwithin hstart]
        cases hleaves : m.punctuation start comment.start with
        | error e => rfl
        | ok leaves =>
          have hbefore := hwithin.append_punctuation hstart hleaves
          have hgrown : Within comment.stop (children ++ leaves ++ [comment]) :=
            within_concat (Nat.le_refl _)
          dsimp only [bind, Except.bind, pure, Except.pure]
          rw [push_of_within hbefore (Nat.le_refl _)]
          dsimp only
          rw [ih hgrown (Nat.not_lt.1 hinside)]
          cases m.fillFrom stop comment.stop (comment :: passed) ahead <;>
            simp [bind, Except.bind, pure, Except.pure]

/-- Nothing is added where the gap would end before it starts. -/
theorem fillOntoFrom_of_lt {start stop : Nat} {ahead : List Node} (hlt : stop < start)
    (hnonempty : ∀ comment ∈ ahead, comment.start < comment.stop) (children passed : List Node) :
    ∃ cursor, m.fillOntoFrom stop start children passed ahead = .ok (children, cursor) := by
  have hnone : m.pushPunctuation children start stop = .ok children := by
    rw [pushPunctuation, gapPieces_of_lt hlt]
    rfl
  induction ahead generalizing passed with
  | nil => exact ⟨_, by rw [fillOntoFrom, hnone]⟩
  | cons comment ahead ih =>
    rw [List.forall_mem_cons] at hnonempty
    rw [fillOntoFrom, hnone]
    split
    · exact ih hnonempty.2 _
    · rename_i hge
      rw [if_pos (by omega)]
      exact ⟨_, rfl⟩

/-- The comments ahead of a cursor that has been moved back are some of the last ones. -/
theorem exists_append_rewind {comments : List Node} {cursor : CommentCursor}
    (hcursor : cursor.toList = comments) (start : Nat) :
    comments = (cursor.rewind start).passed.reverse ++ (cursor.rewind start).ahead :=
  hcursor.symm.trans (CommentCursor.toList_rewind cursor start).symm

/-- **Appending a child** is filling the gap onto the children and adding the child, whatever the
children and the child are. -/
theorem append_eq_fillOnto {comments children : List Node} (htable : IsTable comments)
    {last : Node} (hlast : children.getLast? = some last) (child : Node) {cursor : CommentCursor}
    (hcursor : cursor.toList = comments) :
    m.append children (some child) cursor =
      (m.fillOnto children last.stop child.start cursor >>= fun filled =>
        m.push filled.1 child >>= fun grown => pure (grown, filled.2)) := by
  have hnonempty := htable.nonempty
  rw [exists_append_rewind hcursor last.stop, List.forall_mem_append] at hnonempty
  rw [append_some_eq m hlast]
  by_cases hlt : child.start < last.stop
  · -- the child overlaps the last one, which adding it finds out as well
    obtain ⟨cursor', hnone⟩ := fillOntoFrom_of_lt (m := m) hlt hnonempty.2 children
      (cursor.rewind last.stop).passed
    rw [if_pos hlt, fillOnto, hnone]
    simp only [bind, Except.bind, push, hlast, if_pos hlt]
  · -- what fills the gap starts behind the last child, so nothing overlaps
    have hwithin : Within last.stop children := by
      intro other hother
      rw [hlast, Option.mem_some_iff] at hother
      exact hother ▸ Nat.le_refl _
    have hle := Nat.not_lt.1 hlt
    rw [if_neg hlt, fillOnto, fillOntoFrom_eq hwithin hle, fillGap]
    cases hgap : m.fillFrom child.start last.stop (cursor.rewind last.stop).passed
      (cursor.rewind last.stop).ahead with
    | error e => rfl
    | ok filled =>
      have hend : Within child.start (children ++ filled.1) :=
        (fillFrom_eq_ok_iff.1 hgap).within hwithin hle
      simp only [bind, Except.bind, pure, Except.pure, push_of_within hend (Nat.le_refl _)]

/-! ### Steps that do not depend on the cursor -/

/-- **A step with the same result wherever the cursor stands** among the comments, all of which it
keeps. -/
def PlaceFree {α : Type} (comments : List Node)
    (step : CommentCursor → Except MapError (α × CommentCursor)) : Prop :=
  (∃ e, ∀ cursor : CommentCursor, cursor.toList = comments → step cursor = .error e) ∨
    ∃ a, ∀ cursor : CommentCursor, cursor.toList = comments →
      ∃ cursor', step cursor = .ok (a, cursor') ∧ cursor'.toList = comments

namespace PlaceFree

variable {α β : Type} {comments : List Node}
  {step : CommentCursor → Except MapError (α × CommentCursor)}

theorem error (e : MapError) : PlaceFree (α := α) comments fun _ => .error e :=
  .inl ⟨e, fun _ _ => rfl⟩

theorem ok (a : α) : PlaceFree comments fun cursor => .ok (a, cursor) :=
  .inr ⟨a, fun cursor hcursor => ⟨cursor, rfl, hcursor⟩⟩

/-- A step and a next one that takes up its result and its cursor. -/
theorem bind (h : PlaceFree comments step)
    {next : α → CommentCursor → Except MapError (β × CommentCursor)}
    (hnext : ∀ a, PlaceFree comments (next a)) :
    PlaceFree comments fun cursor => step cursor >>= fun made => next made.1 made.2 := by
  rcases h with ⟨e, herror⟩ | ⟨a, hok⟩
  · left
    refine ⟨e, ?_⟩
    intro cursor hcursor
    dsimp only
    rw [herror cursor hcursor]
    rfl
  · rcases hnext a with ⟨e, herror⟩ | ⟨b, hok'⟩
    · left
      refine ⟨e, ?_⟩
      intro cursor hcursor
      -- the first step keeps the comments, so the next one does not depend on its cursor
      obtain ⟨cursor', hmade, hkept⟩ := hok cursor hcursor
      dsimp only
      rw [hmade]
      exact herror cursor' hkept
    · right
      refine ⟨b, ?_⟩
      intro cursor hcursor
      obtain ⟨cursor', hmade, hkept⟩ := hok cursor hcursor
      dsimp only
      rw [hmade]
      exact hok' cursor' hkept

/-- Two cursors among the same comments lead to the same result. -/
theorem fst_eq (h : PlaceFree comments step) {cursor cursor' : CommentCursor}
    (hcursor : cursor.toList = comments) (hcursor' : cursor'.toList = comments) :
    (step cursor).map Prod.fst = (step cursor').map Prod.fst := by
  rcases h with ⟨e, herror⟩ | ⟨a, hok⟩
  · rw [herror cursor hcursor, herror cursor' hcursor']
  · obtain ⟨_, hmade, -⟩ := hok cursor hcursor
    obtain ⟨_, hmade', -⟩ := hok cursor' hcursor'
    rw [hmade, hmade']
    rfl

end PlaceFree

section Realize

variable {comments : List Node}

theorem placeFree_fillGap (htable : IsTable comments) (start stop : Nat) :
    PlaceFree comments (m.fillGap start stop) := by
  obtain ⟨before, after, hsplit, hbefore, hafter⟩ := htable.exists_split start
  -- where a gap starts decides what is ahead, not where the cursor was
  have heq : ∀ cursor : CommentCursor, cursor.toList = comments →
      m.fillGap start stop cursor = m.fillFrom stop start before.reverse after :=
    fun cursor hcursor => fillGap_eq (hcursor.trans hsplit) hbefore hafter
  cases hfill : m.fillFrom stop start before.reverse after with
  | error e => exact .inl ⟨e, fun cursor hcursor => (heq cursor hcursor).trans hfill⟩
  | ok filled =>
    right
    refine ⟨filled.1, ?_⟩
    intro cursor hcursor
    have hmade := (heq cursor hcursor).trans hfill
    exact ⟨filled.2, hmade, (toList_fillGap hmade).trans hcursor⟩

theorem placeFree_append (htable : IsTable comments) (children : List Node) (child : Option Node) :
    PlaceFree comments (m.append children child) := by
  cases child with
  | none => exact .ok children
  | some child =>
    cases hlast : children.getLast? with
    | none =>
      unfold append
      rw [hlast]
      exact .ok [child]
    | some last =>
      rw [funext (append_some_eq m hlast child)]
      by_cases hlt : child.start < last.stop
      · simp only [if_pos hlt]
        exact .error _
      · simp only [if_neg hlt]
        exact (placeFree_fillGap htable _ _).bind fun gap => .ok (children ++ gap ++ [child])

mutual

/-- **Realizing a plan** does not depend on where the cursor stands. -/
theorem placeFree_realize (htable : IsTable comments) :
    (plan : Plan) → PlaceFree comments (m.realize plan)
  | .nothing => by
    simp only [realize]
    exact .ok none
  | .token tags pos text label => by
    rw [funext (realize_token_eq m tags pos text label)]
    cases m.expect tags pos text label with
    | error e => exact .error e
    | ok leaf => exact .ok leaf
  | .group tags label parts => by
    rw [funext (realize_group_eq m tags label parts)]
    exact (placeFree_realizeAll htable parts []).bind fun children => .ok _

/-- Realizing plans one after the other does not depend on where the cursor stands. -/
theorem placeFree_realizeAll (htable : IsTable comments) :
    (plans : List Plan) → (children : List Node) → PlaceFree comments (m.realizeAll plans children)
  | [], children => by
    simp only [realizeAll]
    exact .ok children
  | part :: rest, children => by
    rw [funext (realizeAll_cons_eq m part rest children)]
    exact (placeFree_realize htable part).bind fun child =>
      (placeFree_append htable children child).bind fun grown =>
        placeFree_realizeAll htable rest grown

end

/-- **The place of the cursor does not matter.**  From any two places among comments in order, a gap
is filled onto the same children with the same outcome; the comments added are those that lie in the
gap, in order, with punctuation around them; and a construct, which is mapped by realizing its plan,
makes the same node or fails with the same error. -/
theorem fillOnto_eq_of_cursor (m : Mapping) (htable : IsTable comments) (i j : Nat) :
    (∀ children start stop,
      m.fillOnto children start stop (.behind comments i) =
          m.fillOnto children start stop (.behind comments j) ∧
        ∀ grown cursor, m.fillOnto children start stop (.behind comments i) = .ok (grown, cursor) →
          ∃ nodes, grown = children ++ nodes ∧
            m.Filled stop start
              (comments.filter fun comment => start ≤ comment.start ∧ comment.stop ≤ stop) nodes) ∧
    ∀ plan, (m.realize plan (.behind comments i)).map Prod.fst =
      (m.realize plan (.behind comments j)).map Prod.fst := by
  constructor
  · intro children start stop
    obtain ⟨before, after, hsplit, hbefore, hafter⟩ := htable.exists_split start
    have heq : ∀ n, m.fillOnto children start stop (.behind comments n) =
        m.fillOntoFrom stop start children before.reverse after := by
      intro n
      apply fillOnto_eq _ hbefore hafter
      rw [CommentCursor.toList_behind, hsplit]
    refine ⟨(heq i).trans (heq j).symm, ?_⟩
    intro grown cursor h
    rw [heq i] at h
    have hpairwise := htable.pairwise
    have hnonempty := htable.nonempty
    rw [hsplit, List.pairwise_append] at hpairwise
    rw [hsplit, List.forall_mem_append] at hnonempty
    obtain ⟨nodes, hgrown, hfilled⟩ :=
      filled_of_fillOntoFrom hafter hnonempty.2 hpairwise.2.1 h
    refine ⟨nodes, hgrown, ?_⟩
    -- of the comments before the gap none is counted, of the others those that end in it
    have hnone : before.filter
        (fun comment => decide (start ≤ comment.start ∧ comment.stop ≤ stop)) = [] := by
      rw [List.filter_eq_nil_iff]
      intro comment hcomment
      have hlt := hbefore comment hcomment
      simp only [decide_eq_true_eq]
      omega
    rw [hsplit, List.filter_append, hnone, List.nil_append]
    convert hfilled using 1
    apply List.filter_congr
    intro comment hcomment
    have hge := hafter comment hcomment
    simp [hge]
  · intro plan
    exact (placeFree_realize htable plan).fst_eq (CommentCursor.toList_behind ..)
      (CommentCursor.toList_behind ..)

end Realize

/-- A cursor behind both comments fills the gap as one in front of them does. -/
theorem fillOnto_eq_behind_both :
    IsTable [Node.leaf [.comment] "" ⟨"/*x*/", 1, 3⟩ 2 7,
      Node.leaf [.comment] "" ⟨"//y", 1, 11⟩ 10 13] ∧
      (fillOnto ⟨⟨"p.go", "a /*x*/, .//y\nb".toList⟩, .strict⟩ [.leaf [] "" ⟨"a", 1, 1⟩ 0 1] 1 14
        (.behind [.leaf [.comment] "" ⟨"/*x*/", 1, 3⟩ 2 7,
          .leaf [.comment] "" ⟨"//y", 1, 11⟩ 10 13] 2)).map
        (fun filled => filled.1.map Node.value) = .ok ["a", "/*x*/", ",", ".", "//y"] := by
  have htable : IsTable [Node.leaf [.comment] "" ⟨"/*x*/", 1, 3⟩ 2 7,
      Node.leaf [.comment] "" ⟨"//y", 1, 11⟩ 10 13] := by
    refine ⟨?_, ?_, ?_⟩ <;> simp [Node.leaf]
  refine ⟨htable, ?_⟩
  have hsame :=
    (fillOnto_eq_of_cursor ⟨⟨"p.go", "a /*x*/, .//y\nb".toList⟩, .strict⟩ htable 2 0).1
  rw [(hsame _ 1 14).1]
  rfl

end Mapping

end GoTree
