import Mathlib.Data.List.TakeWhile
import GoTree.Proofs.Mapping.Leaf
import GoTree.Proofs.Mapping.Steps
import GoTree.Proofs.Mapping.Word

/-!
# Gaps are filled

Between two boundaries of the text, the leaves made for a gap leave out only blanks: every other
byte belongs to an implied token, to a comment or to what is unaccounted for.  This holds whatever
the comments are and wherever the cursor stands, and in either strictness.

## Main definitions

* `Mapping.Filling`: the steps in which a gap is filled

## Main results

* `Mapping.fills_punctuation`: the leaves for implied punctuation fill their stretch
* `Mapping.fillFrom_eq_ok_iff`: a gap is filled in its steps and in no other way
* `Mapping.fills_fillGap`: comments and punctuation fill a gap, and the comments are kept
-/

namespace GoTree

/-! ### Blanks at the ends -/

theorem lt_of_isSpaceByte {b : UInt8} (h : isSpaceByte b = true) : b < 0x80 := by
  have hle : b ≤ 0x20 := by simpa [isSpaceByte] using h
  exact UInt8.lt_of_le_of_lt hle (by decide)

theorem Text.blank_iff_isSpaceByte {x : Text} : x.Blank ↔ ∀ b ∈ x.bytes, isSpaceByte b = true := by
  simp [blank_iff_bytes, isSpaceByte]

/-- What is cut off at the end is blank. -/
theorem exists_trimEnd_append (bs : List UInt8) :
    ∃ blanks, bs = trimEnd bs ++ blanks ∧ ∀ b ∈ blanks, isSpaceByte b = true := by
  refine ⟨(bs.reverse.takeWhile isSpaceByte).reverse, ?_, ?_⟩
  · rw [trimEnd, ← List.reverse_append, List.takeWhile_append_dropWhile, List.reverse_reverse]
  · intro b hb
    exact List.mem_takeWhile_imp (List.mem_reverse.1 hb)

/-- Bytes are blanks and a rest that does not start with one. -/
theorem exists_spaces_append (bs : List UInt8) :
    ∃ u r, bs = u ++ r ∧ (∀ b ∈ u, isSpaceByte b = true) ∧
      ∀ b ∈ r.head?, isSpaceByte b = false := by
  refine ⟨_, _, (List.takeWhile_append_dropWhile (p := isSpaceByte) (l := bs)).symm, ?_, ?_⟩
  · exact fun b hb => List.mem_takeWhile_imp hb
  · intro b hb
    have hnot := List.head?_dropWhile_not isSpaceByte bs
    rw [Option.mem_def.1 hb] at hnot
    simpa using hnot

/-- **A text is blanks and a rest** that is empty or starts with another byte. -/
theorem Text.exists_blank_append (x : Text) :
    ∃ u v, x = u ++ v ∧ u.Blank ∧ ∀ b ∈ v.bytes.head?, isSpaceByte b = false := by
  obtain ⟨spaces, rest, hsplit, hspaces, hrest⟩ := exists_spaces_append x.bytes
  obtain ⟨u, v, hx, hu, hv⟩ :=
    exists_append_of_bytes_left hsplit fun b hb => lt_of_isSpaceByte (hspaces b hb)
  refine ⟨u, v, hx, ?_, ?_⟩
  · rw [blank_iff_isSpaceByte, hu]
    exact hspaces
  · rw [hv]
    exact hrest

/-! ### Implied tokens -/

/-- A text whose bytes start with an implied token starts with its characters. -/
theorem exists_append_of_impliedPrefix? {x : Text} {word : String}
    (h : impliedPrefix? x.bytes = some word) :
    word ∈ impliedWords ∧ ∃ w y, x = w ++ y ∧ w.bytes = wordBytes word ∧ w ≠ [] := by
  obtain ⟨hmem, rest, hrest⟩ := impliedPrefix?_eq_some_iff.1 h
  obtain ⟨hne, hlow⟩ := wordBytes_of_mem hmem
  obtain ⟨w, y, hx, hw, -⟩ := Text.exists_append_of_bytes_left hrest.symm fun b hb => (hlow b hb).1
  refine ⟨hmem, w, y, hx, hw, ?_⟩
  rintro rfl
  exact hne hw.symm

/-- **What a token of a gap holds:** an implied token is one of the words. -/
def GapPiece.Holds : GapPiece → String → Prop
  | .implied word _ _, value => word ∈ impliedWords ∧ value = word
  | .unaccounted _ _, _ => True

/-- A text with the bytes of a word is the word. -/
theorem ofList_of_bytes {x : Text} {word : String} (h : x.bytes = wordBytes word) :
    String.ofList x = word := by
  have hx : x = word.toList := Text.eq_of_bytes_eq h
  rw [hx, String.ofList_toList]

/-- The first token after some blanks. -/
theorem piecesFrom_blank_append {n offset : Nat} {u r : List UInt8}
    (hu : ∀ b ∈ u, isSpaceByte b = true) (hr : ∀ b ∈ r.head?, isSpaceByte b = false) :
    piecesFrom (n + 1) offset (u ++ r) =
      if r.isEmpty then []
      else
        match impliedPrefix? r with
        | some word =>
          .implied word (offset + u.length) (offset + u.length + (wordBytes word).length) ::
            piecesFrom n (offset + u.length + (wordBytes word).length)
              (r.drop (wordBytes word).length)
        | none => [.unaccounted (offset + u.length) (offset + u.length + r.length)] := by
  have hblanks : (u ++ r).takeWhile isSpaceByte = u := by
    rw [List.takeWhile_append_of_pos hu]
    cases r with
    | nil => simp
    | cons b r => simp [hr b (by simp)]
  cases hword : impliedPrefix? r with
  | none => simp only [piecesFrom, hblanks, List.drop_left, hword]
  | some word => simp only [piecesFrom, hblanks, List.drop_left, hword]

/-- Nothing stands in a gap that ends before it starts. -/
theorem gapPieces_of_lt {t : Text} {start stop : Nat} (h : stop < start) :
    gapPieces t start stop = [] := by
  have hbytes : t.bytesIn start stop = [] := by
    rw [Text.bytesIn, Nat.sub_eq_zero_of_le h.le, List.take_zero]
  rw [gapPieces, hbytes]
  rfl

namespace Mapping

variable {m : Mapping}

/-! ### Punctuation -/

theorem pieceLeaves_cons {piece : GapPiece} {rest : List GapPiece} {leaves : List Node}
    (h : m.pieceLeaves (piece :: rest) = .ok leaves) :
    ∃ leaf others, m.pieceLeaf piece = .ok leaf ∧ m.pieceLeaves rest = .ok others ∧
      leaves = leaf.toList ++ others := by
  rw [pieceLeaves_cons_eq] at h
  obtain ⟨leaf, hleaf, h⟩ := exists_of_bind_eq_ok h
  obtain ⟨others, hothers, h⟩ := exists_of_bind_eq_ok h
  exact ⟨leaf, others, hleaf, hothers, (Except.ok.inj h).symm⟩

/-- **A leaf for a token of a gap**, which holds what the token holds. -/
def IsPiece (m : Mapping) (leaf : Node) : Prop :=
  ∃ piece : GapPiece, m.pieceLeaf piece = .ok (some leaf) ∧ piece.Holds leaf.value

/-- Bytes that are not accounted for are made into a leaf if they are kept. -/
theorem leafAt_of_unaccounted {start stop : Nat} {made : Option Node}
    (h : m.pieceLeaf (.unaccounted start stop) = .ok made) :
    m.leafAt [] start stop "" = .ok made := by
  rw [pieceLeaf_unaccounted_eq] at h
  obtain ⟨-, -, hmade⟩ := exists_of_bind_eq_ok h
  exact hmade

/-- A token of a gap that is kept is a leaf with the tags of an implied token. -/
theorem leafAt_of_pieceLeaf {piece : GapPiece} {leaf : Node}
    (h : m.pieceLeaf piece = .ok (some leaf)) :
    ∃ tags start stop, m.leafAt tags start stop "" = .ok (some leaf) ∧
      (tags = [] ∨ tags = [.elseKeyword]) := by
  cases piece with
  | implied word start stop =>
    refine ⟨impliedTags word, start, stop, h, ?_⟩
    unfold impliedTags
    split <;> simp
  | unaccounted start stop => exact ⟨[], start, stop, leafAt_of_unaccounted h, .inl rfl⟩

/-- A token of a gap that is kept has bytes. -/
theorem IsPiece.isSlice {leaf : Node} (h : m.IsPiece leaf) :
    leaf.IsSlice m.text ∧ leaf.start < leaf.stop := by
  obtain ⟨piece, hpiece, -⟩ := h
  obtain ⟨tags, start, stop, hleaf, htags⟩ := leafAt_of_pieceLeaf hpiece
  refine ⟨isSlice_of_leafAt hleaf, start_lt_stop_of_leafAt hleaf ?_⟩
  rintro rfl
  simp at htags

/-- In a strict mapping a token of a gap is implied. -/
theorem IsPiece.mem_impliedWords (hstrict : m.strictness = .strict) {leaf : Node}
    (h : m.IsPiece leaf) : leaf.value ∈ impliedWords := by
  obtain ⟨piece, hpiece, hholds⟩ := h
  cases piece with
  | implied word start stop =>
    obtain ⟨hmem, hvalue⟩ := hholds
    exact hvalue ▸ hmem
  | unaccounted start stop => simp [pieceLeaf, hstrict] at hpiece

/-- **The tokens of a stretch fill it.** -/
theorem fills_piecesFrom {n start stop : Nat} {x : Text} {leaves : List Node}
    (hx : m.text.slice? start stop = some x) (hn : x.bytes.length ≤ n)
    (h : m.pieceLeaves (piecesFrom n start x.bytes) = .ok leaves) :
    Fills m.text start leaves stop ∧ ∀ leaf ∈ leaves, m.IsPiece leaf := by
  -- induction on the bound: after a token, a shorter stretch is left
  induction n generalizing start x leaves with
  | zero =>
    have hempty : x = [] := by
      rw [← Text.size_eq_zero, ← Text.length_bytes]
      exact Nat.le_zero.1 hn
    obtain rfl : leaves = [] := by simpa [piecesFrom, pieceLeaves] using h.symm
    subst hempty
    exact ⟨⟨[], hx, Text.blank_nil⟩, by simp⟩
  | succ n ih =>
    obtain ⟨u, v, rfl, hu, hv⟩ := x.exists_blank_append
    obtain ⟨hslice_u, hslice_v⟩ := Text.slice?_of_append hx
    have hblank : m.text.BlankBetween start (start + u.size) := ⟨u, hslice_u, hu⟩
    rw [Text.bytes_append, List.length_append] at hn
    rw [Text.bytes_append, piecesFrom_blank_append (Text.blank_iff_isSpaceByte.1 hu) hv,
      Text.length_bytes] at h
    split at h
    · rename_i hempty
      have hnil : v = [] := by
        rw [← Text.size_eq_zero, ← Text.length_bytes, List.isEmpty_iff.1 hempty]
        rfl
      obtain rfl : leaves = [] := by simpa [pieceLeaves] using h.symm
      subst hnil
      refine ⟨⟨u, ?_, hu⟩, by simp⟩
      simpa using hx
    · rename_i hne
      have hvne : v ≠ [] := by
        rintro rfl
        simp at hne
      split at h
      · -- an implied token, and after it a shorter stretch
        rename_i word hword
        obtain ⟨hmem, w, y, rfl, hw, hwne⟩ := exists_append_of_impliedPrefix? hword
        obtain ⟨hslice_w, hslice_y⟩ := Text.slice?_of_append hslice_v
        obtain ⟨made, others, hmade, hothers, rfl⟩ := pieceLeaves_cons h
        have hsize : (wordBytes word).length = w.size := by rw [← hw, Text.length_bytes]
        rw [hsize] at hmade hothers
        obtain ⟨leaf, rfl, hleafStart, hleafStop, hvalue⟩ := exists_of_leafAt hslice_w hwne hmade
        have hdrop : ((w ++ y).bytes).drop w.size = y.bytes := by
          rw [Text.bytes_append, ← Text.length_bytes, List.drop_left]
        rw [hdrop] at hothers
        have hshort : y.bytes.length ≤ n := by
          have hpos := Text.size_pos hwne
          rw [Text.bytes_append, List.length_append, Text.length_bytes w] at hn
          omega
        obtain ⟨hfills, hpieces⟩ := ih hslice_y hshort hothers
        refine ⟨⟨hleafStart.symm ▸ hblank, hleafStop.symm ▸ hfills⟩, ?_⟩
        refine List.forall_mem_cons.2 ⟨⟨_, hmade, hmem, ?_⟩, hpieces⟩
        rw [hvalue]
        exact ofList_of_bytes hw
      · -- bytes that nothing accounts for, up to the end
        obtain ⟨made, others, hmade, hothers, rfl⟩ := pieceLeaves_cons h
        obtain rfl : others = [] := by simpa [pieceLeaves] using hothers.symm
        have hstop : start + u.size + v.bytes.length = stop := by
          rw [Text.length_bytes]
          obtain ⟨a, b, -, -, hstop⟩ := Text.slice?_eq_some_iff.1 hslice_v
          exact hstop
        rw [hstop] at hmade
        obtain ⟨leaf, rfl, hleafStart, hleafStop, -⟩ :=
          exists_of_leafAt hslice_v hvne (leafAt_of_unaccounted hmade)
        refine ⟨⟨hleafStart.symm ▸ hblank, ?_⟩, List.forall_mem_singleton.2 ⟨_, hmade, trivial⟩⟩
        rw [hleafStop]
        exact Text.blankBetween_self (Text.isBoundary_of_slice? hslice_v).2

/-- **The leaves for implied punctuation fill the stretch** between two boundaries. -/
theorem fills_punctuation {start stop : Nat} {leaves : List Node}
    (hstart : m.text.IsBoundary start) (hstop : m.text.IsBoundary stop) (hle : start ≤ stop)
    (h : m.punctuation start stop = .ok leaves) :
    Fills m.text start leaves stop ∧ ∀ leaf ∈ leaves, m.IsPiece leaf := by
  obtain ⟨x, hx⟩ := Text.exists_slice?_of_isBoundary hstart hstop hle
  obtain ⟨blanks, hbytes, hblanks⟩ := exists_trimEnd_append x.bytes
  obtain ⟨y, z, rfl, hy, hz⟩ :=
    Text.exists_append_of_bytes_right hbytes fun b hb => lt_of_isSpaceByte (hblanks b hb)
  obtain ⟨hslice_y, hslice_z⟩ := Text.slice?_of_append hx
  rw [punctuation, gapPieces, Text.bytesIn_of_slice? hx, ← hy] at h
  obtain ⟨hfills, hpieces⟩ := fills_piecesFrom hslice_y (Nat.le_refl _) h
  have hblank : m.text.BlankBetween (start + y.size) stop :=
    ⟨z, hslice_z, Text.blank_iff_isSpaceByte.2 (hz.symm ▸ hblanks)⟩
  refine ⟨?_, hpieces⟩
  have hnone : Fills m.text (start + y.size) [] stop := hblank
  have happend := hfills.append hnone
  rwa [List.append_nil] at happend

/-! ### Comments and punctuation -/

/-- **The steps of filling a gap** up to `stop`, with the comments passed and those ahead.  A comment
that starts before the place reached is passed over, punctuation stands before each comment found,
and the first comment that reaches beyond the gap ends the search. -/
inductive Filling (m : Mapping) (stop : Nat) :
    (start : Nat) → (passed ahead gap : List Node) → CommentCursor → Prop where
  | skipped {start : Nat} {comment : Node} {passed ahead gap : List Node} {cursor : CommentCursor}
      (hbefore : comment.start < start)
      (hrest : Filling m stop start (comment :: passed) ahead gap cursor) :
      Filling m stop start passed (comment :: ahead) gap cursor
  | found {start : Nat} {comment : Node} {passed ahead leaves rest : List Node}
      {cursor : CommentCursor} (hstart : start ≤ comment.start) (hstop : comment.stop ≤ stop)
      (hleaves : m.punctuation start comment.start = .ok leaves)
      (hrest : Filling m stop comment.stop (comment :: passed) ahead rest cursor) :
      Filling m stop start passed (comment :: ahead) (leaves ++ comment :: rest) cursor
  | ended {start : Nat} {passed ahead leaves : List Node}
      (hnext : ∀ comment ∈ ahead.head?, start ≤ comment.start ∧ stop < comment.stop)
      (hleaves : m.punctuation start stop = .ok leaves) :
      Filling m stop start passed ahead leaves ⟨passed, ahead⟩

/-- A gap is filled in these steps and in no other way. -/
theorem fillFrom_eq_ok_iff {start stop : Nat} {passed ahead gap : List Node}
    {cursor : CommentCursor} :
    m.fillFrom stop start passed ahead = .ok (gap, cursor) ↔
      m.Filling stop start passed ahead gap cursor := by
  constructor
  · intro h
    induction ahead generalizing start passed gap cursor with
    | nil =>
      rw [fillFrom_nil_eq] at h
      obtain ⟨leaves, hleaves, h⟩ := exists_of_bind_eq_ok h
      obtain ⟨rfl, rfl⟩ := Prod.mk.inj (Except.ok.inj h)
      exact .ended (by simp) hleaves
    | cons comment ahead ih =>
      rw [fillFrom_cons_eq] at h
      split at h
      · rename_i hbefore
        exact .skipped hbefore (ih h)
      · rename_i hstart
        split at h
        · rename_i hbeyond
          obtain ⟨leaves, hleaves, h⟩ := exists_of_bind_eq_ok h
          obtain ⟨rfl, rfl⟩ := Prod.mk.inj (Except.ok.inj h)
          exact .ended (by simp [Nat.not_lt.1 hstart, hbeyond]) hleaves
        · rename_i hstop
          obtain ⟨leaves, hleaves, h⟩ := exists_of_bind_eq_ok h
          obtain ⟨⟨rest, last⟩, hrest, h⟩ := exists_of_bind_eq_ok h
          obtain ⟨rfl, rfl⟩ := Prod.mk.inj (Except.ok.inj h)
          exact .found (Nat.not_lt.1 hstart) (Nat.not_lt.1 hstop) hleaves (ih hrest)
  · intro h
    -- each step says which branch is taken
    induction h with
    | skipped hbefore _ ih => rw [fillFrom, if_pos hbefore, ih]
    | found hstart hstop hleaves _ ih =>
      rw [fillFrom, if_neg (Nat.not_lt.2 hstart), if_neg (Nat.not_lt.2 hstop), hleaves]
      dsimp only
      rw [ih]
    | @ended _ _ ahead _ hnext hleaves =>
      cases ahead with
      | nil => rw [fillFrom, hleaves]
      | cons comment ahead =>
        obtain ⟨hstart, hbeyond⟩ := hnext comment rfl
        rw [fillFrom, if_neg (Nat.not_lt.2 hstart), if_pos hbeyond, hleaves]

namespace Filling

variable {start stop : Nat} {passed ahead gap : List Node} {cursor : CommentCursor}

/-- Filling keeps the comments. -/
theorem toList_eq (h : m.Filling stop start passed ahead gap cursor) :
    cursor.toList = passed.reverse ++ ahead := by
  induction h with
  | skipped _ _ ih | found _ _ _ _ ih => simpa using ih
  | ended => rfl

/-- Filling fills the stretch with comments ahead and tokens of the gap. -/
theorem fills (hcomments : ∀ comment ∈ ahead, comment.IsSlice m.text)
    (hstart : m.text.IsBoundary start) (hstop : m.text.IsBoundary stop) (hle : start ≤ stop)
    (h : m.Filling stop start passed ahead gap cursor) :
    Fills m.text start gap stop ∧ ∀ leaf ∈ gap, leaf ∈ ahead ∨ m.IsPiece leaf := by
  induction h with
  | @skipped _ comment _ _ _ _ _ _ ih =>
    rw [List.forall_mem_cons] at hcomments
    obtain ⟨hfills, hleaves⟩ := ih hcomments.2 hstart hle
    refine ⟨hfills, ?_⟩
    intro leaf hleaf
    exact (hleaves leaf hleaf).imp_left (List.mem_cons_of_mem comment)
  | @found _ comment _ _ leaves rest _ hge hinside hleaves _ ih =>
    rw [List.forall_mem_cons] at hcomments
    obtain ⟨hslice, hothers⟩ := hcomments
    -- punctuation up to the comment, the comment itself, and what follows it
    obtain ⟨hbefore, hpieces⟩ := fills_punctuation hstart hslice.isBoundary.1 hge hleaves
    obtain ⟨hafter, hrest⟩ := ih hothers hslice.isBoundary.2 hinside
    have hfrom : Fills m.text comment.start (comment :: rest) stop :=
      ⟨Text.blankBetween_self hslice.isBoundary.1, hafter⟩
    refine ⟨hbefore.append hfrom, ?_⟩
    rw [List.forall_mem_append, List.forall_mem_cons]
    refine ⟨fun leaf hleaf => .inr (hpieces leaf hleaf), .inl (by simp), ?_⟩
    intro leaf hleaf
    exact (hrest leaf hleaf).imp_left (List.mem_cons_of_mem comment)
  | ended _ hleaves =>
    obtain ⟨hfills, hpieces⟩ := fills_punctuation hstart hstop hle hleaves
    exact ⟨hfills, fun leaf hleaf => .inr (hpieces leaf hleaf)⟩

end Filling

/-- Filling a gap keeps the comments. -/
theorem toList_fillGap {start stop : Nat} {cursor cursor' : CommentCursor} {gap : List Node}
    (h : m.fillGap start stop cursor = .ok (gap, cursor')) : cursor'.toList = cursor.toList :=
  (fillFrom_eq_ok_iff.1 h).toList_eq.trans (CommentCursor.toList_rewind cursor start)

/-- **Comments and punctuation fill a gap** between two boundaries, and the comments are kept. -/
theorem fills_fillGap {start stop : Nat} {cursor cursor' : CommentCursor} {gap : List Node}
    (hcomments : ∀ comment ∈ cursor.toList, comment.IsSlice m.text)
    (hstart : m.text.IsBoundary start) (hstop : m.text.IsBoundary stop) (hle : start ≤ stop)
    (h : m.fillGap start stop cursor = .ok (gap, cursor')) :
    Fills m.text start gap stop ∧ cursor'.toList = cursor.toList ∧
      ∀ leaf ∈ gap, leaf ∈ cursor.toList ∨ m.IsPiece leaf := by
  have hahead : ∀ comment ∈ (cursor.rewind start).ahead, comment ∈ cursor.toList := by
    intro comment hcomment
    rw [← CommentCursor.toList_rewind cursor start]
    exact List.mem_append_right _ hcomment
  obtain ⟨hfills, hleaves⟩ := (fillFrom_eq_ok_iff.1 h).fills
    (fun comment hcomment => hcomments comment (hahead comment hcomment)) hstart hstop hle
  refine ⟨hfills, toList_fillGap h, ?_⟩
  intro leaf hleaf
  exact (hleaves leaf hleaf).imp_left (hahead leaf)

end Mapping

end GoTree
