import GoTree.Mapping.Assembly
import GoTree.Proofs.Tree.Composition

/-!
# Leaves of the mapping

A leaf is made only over a slice of the text, and over every slice that is not empty.  A token that
is stored without its carriage returns is found again: the leaf reaches to the last character that
was stored.

## Main results

* `Mapping.leafAt_eq_ok_some`, `Mapping.leafAt_of_slice?`: when a leaf is made, and what it holds
* `Mapping.expect_eq_ok_some`: an expected token is a leaf
* `Mapping.expect_of_slice?`: a slice is found by its stored text
-/

namespace GoTree

/-- Going on without a token never makes one. -/
theorem Strictness.tolerate_none_ne_some {α : Type} (strictness : Strictness) (e : MapError)
    (a : α) : strictness.tolerate e none ≠ .ok (some a) := by
  unfold Strictness.tolerate
  split <;> simp

namespace Mapping

variable {m : Mapping} {tags : List Tag} {start stop : Nat} {label : String}

/-! ### Leaves by their bytes -/

/-- **What a leaf holds:** the slice between its offsets, with the position of the first. -/
theorem leafAt_eq_ok_some {node : Node} (h : m.leafAt tags start stop label = .ok (some node)) :
    ∃ value p, m.text.slice? start stop = some value ∧ m.text.lineColumn? start = some p ∧
      (start = stop → tags = [.endOfFile]) ∧
      node = .leaf tags label ⟨String.ofList value, p.line, p.column⟩ start stop := by
  unfold leafAt at h
  split at h
  · simp at h
  · split at h
    · exact (Strictness.tolerate_none_ne_some _ _ _ h).elim
    · rename_i hempty
      split at h
      · rename_i p value hp hvalue
        refine ⟨value, p, hvalue, hp, ?_, by simpa using h.symm⟩
        intro heq
        by_contra htags
        exact hempty ⟨heq, htags⟩
      · exact (Strictness.tolerate_none_ne_some _ _ _ h).elim

/-- A boundary has a position. -/
theorem exists_lineColumn? {t : Text} {n : Nat} (h : t.IsBoundary n) :
    ∃ p, t.lineColumn? n = some p :=
  Option.isSome_iff_exists.1 (Text.isSome_lineColumn?.2 h)

/-- **Every slice makes a leaf**, an empty one only for the end of the file. -/
theorem leafAt_of_slice? (tags : List Tag) (label : String) {value : Text}
    (h : m.text.slice? start stop = some value)
    (hvalue : value ≠ [] ∨ tags = [.endOfFile]) :
    ∃ p, m.text.lineColumn? start = some p ∧
      m.leafAt tags start stop label =
        .ok (some (.leaf tags label ⟨String.ofList value, p.line, p.column⟩ start stop)) := by
  obtain ⟨hstart, hstop⟩ := Text.isBoundary_of_slice? h
  obtain ⟨p, hp⟩ := exists_lineColumn? hstart
  refine ⟨p, hp, ?_⟩
  have hbounds : ¬ (stop < start ∨ m.text.size < stop) := by
    have hle := Text.le_of_slice? h
    have hsize := Text.le_size_of_isBoundary hstop
    omega
  have hempty : ¬ (start = stop ∧ tags ≠ [.endOfFile]) := by
    rintro ⟨rfl, htags⟩
    obtain ⟨a, b, -, -, hsize⟩ := Text.slice?_eq_some_iff.1 h
    have hzero : value.size = 0 := by omega
    exact (hvalue.resolve_right htags) (Text.size_eq_zero.1 hzero)
  simp only [leafAt, if_neg hbounds, if_neg hempty, hp, h]

/-- Over bytes of the text a leaf is made that holds them. -/
theorem exists_of_leafAt {value : Text} {made : Option Node}
    (hslice : m.text.slice? start stop = some value) (hne : value ≠ [])
    (h : m.leafAt tags start stop label = .ok made) :
    ∃ leaf, made = some leaf ∧ leaf.start = start ∧ leaf.stop = stop ∧
      leaf.value = String.ofList value := by
  obtain ⟨p, -, hmade⟩ := leafAt_of_slice? tags label hslice (.inl hne)
  exact ⟨_, (Except.ok.inj (hmade.symm.trans h)).symm, rfl, rfl, rfl⟩

theorem isSlice_of_leafAt {node : Node} (h : m.leafAt tags start stop label = .ok (some node)) :
    node.IsSlice m.text := by
  obtain ⟨value, p, hvalue, hp, -, rfl⟩ := leafAt_eq_ok_some h
  exact ⟨rfl, value, p, hvalue, hp, rfl⟩

/-- Only the end of the file is a leaf without bytes. -/
theorem start_lt_stop_of_leafAt {node : Node}
    (h : m.leafAt tags start stop label = .ok (some node)) (htags : tags ≠ [.endOfFile]) :
    node.start < node.stop := by
  obtain ⟨value, p, hvalue, -, hempty, rfl⟩ := leafAt_eq_ok_some h
  have hle := Text.le_of_slice? hvalue
  have hne : start ≠ stop := fun heq => htags (hempty heq)
  exact Nat.lt_of_le_of_ne hle hne

/-! ### Leaves by their text -/

/-- An expected token is a leaf over the bytes up to where it ends. -/
theorem expect_eq_ok_some {pos : Offset} {expected : String} {node : Node}
    (h : m.expect tags pos expected label = .ok (some node)) :
    m.leafAt tags pos (m.tokenEnd pos expected).1 label = .ok (some node) ∧
      node.value = (m.tokenEnd pos expected).2 := by
  unfold expect at h
  dsimp only at h
  split at h
  · rename_i leaf hleaf
    split at h
    · rename_i hvalue
      obtain rfl : leaf = node := by simpa using h
      exact ⟨hleaf, hvalue⟩
    · exact (Strictness.tolerate_none_ne_some _ _ _ h).elim
  · rename_i hother
    exact absurd h (hother node)

/-- In a strict mapping an expected token is a leaf or an error. -/
theorem expect_ne_none (hstrict : m.strictness = .strict) {pos : Offset} {expected : String} :
    m.expect tags pos expected label ≠ .ok none := by
  unfold expect leafAt
  dsimp only
  rw [hstrict]
  simp only [Strictness.tolerate_strict]
  grind

/-- The stored characters are found again when the last of them is no carriage return. -/
theorem stretch_append {x : Text} (hlast : x.getLast? ≠ some '\r') (y : Text) :
    stretch (x ++ y) x.withoutReturns.size = some x := by
  induction x with
  | nil => cases y <;> rfl
  | cons c x ih =>
    have htail : x.getLast? ≠ some '\r' := by
      cases x with
      | nil => simp
      | cons d x => simpa [List.getLast?_cons_cons] using hlast
    by_cases hc : c = '\r'
    · subst hc
      -- a carriage return is passed over, because a stored character still follows
      have hstored : Text.withoutReturns x ≠ [] := by
        cases x with
        | nil => simp at hlast
        | cons d x =>
          obtain ⟨e, he⟩ : ∃ e, (d :: x).getLast? = some e := Option.isSome_iff_exists.1 (by simp)
          have hmem : e ∈ Text.withoutReturns (d :: x) := by
            simp only [Text.withoutReturns, List.mem_filter]
            refine ⟨List.mem_of_getLast? he, ?_⟩
            simpa [he] using htail
          exact List.ne_nil_of_mem hmem
      obtain ⟨n, hn⟩ : ∃ n, (Text.withoutReturns x).size = n + 1 :=
        Nat.exists_eq_add_one.2 (Text.size_pos hstored)
      rw [Text.withoutReturns_return, hn, List.cons_append, stretch, if_pos rfl, ← hn, ih htail]
      rfl
    · have hpos := c.utf8Size_pos
      obtain ⟨n, hn⟩ : ∃ n, c.utf8Size + (Text.withoutReturns x).size = n + 1 :=
        Nat.exists_eq_add_one.2 (by omega)
      have hrest : n + 1 - c.utf8Size = (Text.withoutReturns x).size := by omega
      rw [Text.withoutReturns_cons hc, Text.size_cons, hn, List.cons_append, stretch, if_neg hc,
        if_pos (by omega), hrest, ih htail]
      rfl

/-- **Where a stored token ends:** at the end of the slice it was stored from. -/
theorem tokenEnd_of_slice? {x : Text} {pos : Offset}
    (h : m.text.slice? pos stop = some x) (hlast : x.getLast? ≠ some '\r') :
    m.tokenEnd pos (String.ofList x.withoutReturns) = (stop, String.ofList x) := by
  obtain ⟨a, b, ht, rfl, rfl⟩ := Text.slice?_eq_some_iff.1 h
  have hsize : storedSize (String.ofList x.withoutReturns) = x.withoutReturns.size := by
    simp [storedSize]
  unfold tokenEnd
  rw [hsize]
  split
  · have hfound : ((m.text.splitAt? a.size).bind fun parts =>
        stretch parts.2 x.withoutReturns.size) = some x := by
      rw [ht, List.append_assoc, Text.splitAt?_append]
      exact stretch_append hlast b
    rw [hfound]
    dsimp only
    split
    · rename_i heq
      -- nothing was left out, so the stored text is the slice
      have hsame : x.withoutReturns = x :=
        Text.withoutReturns_eq_self (Nat.add_left_cancel heq.symm)
      rw [hsame]
    · rfl
  · rename_i hreturn
    have hnone : '\r' ∉ x := by
      intro hmem
      refine hreturn ?_
      rw [ht]
      simp [hmem]
    rw [Text.withoutReturns_of_not_mem hnone]

/-- **A slice is found by its stored text**, whatever the strictness. -/
theorem expect_of_slice? (tags : List Tag) (label : String) {x : Text} {pos : Offset}
    (h : m.text.slice? pos stop = some x)
    (hne : x ≠ [] ∨ tags = [.endOfFile]) (hlast : x.getLast? ≠ some '\r') :
    ∃ p, m.text.lineColumn? pos = some p ∧
      m.expect tags pos (String.ofList x.withoutReturns) label =
        .ok (some (.leaf tags label ⟨String.ofList x, p.line, p.column⟩ pos stop)) := by
  obtain ⟨p, hp, hleaf⟩ := leafAt_of_slice? tags label h hne
  refine ⟨p, hp, ?_⟩
  rw [expect, tokenEnd_of_slice? h hlast]
  dsimp only
  rw [hleaf]
  simp [Node.value, Node.leaf]

end Mapping

end GoTree
