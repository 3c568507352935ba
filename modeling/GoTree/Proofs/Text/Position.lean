import Mathlib.Data.List.Basic
import Mathlib.Data.List.Induction
import GoTree.Proofs.Text.Bytes
import GoTree.Text.LineIndex

/-!
# Positions and offsets

Walking along a text leads through positions that grow, so a walk never comes to a position twice.
Looking for a position therefore undoes the step from offsets to positions.  The one exception is the
end of a text whose last character is a carriage return: the end is reported on the next line, and
yet the walk still arrives there with the position that goes on the last line.

## Main definitions

* `LineColumn.Before`: the order of positions

## Main results

* `LineColumn.first_after`: the position behind a text, by counting
* `Text.seek_eq_some_iff`: what a walk finds
* `LineIndex.lineColumn?_eq`, `LineIndex.offset?_eq`: an index of the lines gives the same positions
  and offsets as walks
* `Text.lineColumn?_counts`: positions grow with the offset, count lines and characters, and lead
  back to the offset
* `Text.offset?_accepts`: which positions have an offset
-/

namespace GoTree

/-! ### The order of positions -/

namespace LineColumn

/-- **The order of positions:** by lines, and on one line by columns. -/
def Before (p q : LineColumn) : Prop :=
  p.line < q.line ∨ p.line = q.line ∧ p.column < q.column

instance (p q : LineColumn) : Decidable (p.Before q) :=
  inferInstanceAs (Decidable (_ ∨ _))

variable {p q r : LineColumn}

theorem Before.trans (h : p.Before q) (h' : q.Before r) : p.Before r := by
  unfold Before at *
  omega

theorem Before.ne (h : p.Before q) : p ≠ q := by
  rintro rfl
  unfold Before at h
  omega

theorem before_advance (p : LineColumn) (c : Char) : p.Before (p.advance c) := by
  unfold advance
  split
  · exact .inl (Nat.lt_succ_self p.line)
  · exact .inr ⟨rfl, Nat.lt_succ_self p.column⟩

/-- **A walk only goes forward.** -/
theorem before_after (p : LineColumn) {t : Text} (h : t ≠ []) : p.Before (p.after t) := by
  induction t generalizing p with
  | nil => exact absurd rfl h
  | cons c t ih =>
    rw [after_cons]
    by_cases ht : t = []
    · rw [ht, after_nil]
      exact p.before_advance c
    · exact (p.before_advance c).trans (ih _ ht)

/-- **The position behind a text:** one more than its line feeds, and one more than the characters
after the last of them. -/
theorem first_after (t : Text) :
    first.after t = ⟨1 + t.count '\n', 1 + t.lastLine.length⟩ := by
  -- a line feed cuts off what stands before it, so the induction takes characters from the end
  induction t using List.reverseRecOn with
  | nil => rfl
  | append_singleton t c ih =>
    rw [after_append, ih, after_cons, after_nil, List.count_append, Text.lastLine_concat]
    by_cases hc : c = '\n'
    · simp [advance, hc, Nat.add_assoc]
    · simp [advance, hc, Nat.add_assoc]

end LineColumn

namespace Text

open LineColumn

/-! ### Lines -/

/-- What follows on the line of a text belongs to its last line. -/
theorem lastLine_append {s t : Text} (h : '\n' ∉ t) : lastLine (s ++ t) = lastLine s ++ t := by
  induction t using List.reverseRecOn with
  | nil => simp
  | append_singleton t c ih =>
    simp only [List.mem_append, List.mem_singleton, not_or] at h
    rw [← List.append_assoc, lastLine_concat, if_neg (Ne.symm h.2), ih h.1, List.append_assoc]

/-- **A text is its finished lines and its last one**, which has no line feed. -/
theorem exists_append_lastLine (t : Text) :
    ∃ lines, t = lines ++ t.lastLine ∧ lines.EndsLine ∧ '\n' ∉ t.lastLine := by
  induction t using List.reverseRecOn with
  | nil => exact ⟨[], rfl, by simp [EndsLine], by simp⟩
  | append_singleton t c ih =>
    obtain ⟨lines, ht, hends, hline⟩ := ih
    rw [lastLine_concat]
    by_cases hc : c = '\n'
    · exact ⟨t ++ [c], by simp [hc], by simp [EndsLine, hc], by simp [hc]⟩
    · refine ⟨lines, ?_, hends, ?_⟩
      · rw [if_neg hc, ← List.append_assoc, ← ht]
      · rw [if_neg hc, List.mem_append, List.mem_singleton, not_or]
        exact ⟨hline, Ne.symm hc⟩

theorem lastLine_of_endsLine {t : Text} (h : t.EndsLine) : t.lastLine = [] := by
  rcases List.eq_nil_or_concat' t with rfl | ⟨s, c, rfl⟩
  · rfl
  · rw [lastLine_concat, if_pos (h c (by simp))]

/-! ### Positions of offsets -/

variable {t : Text} {p : LineColumn} {offset : Nat}

/-- **The position between two parts of a text.** -/
theorem lineColumn?_append (before rest : Text) :
    (before ++ rest).lineColumn? before.size =
      some (if rest = [] ∧ (before ++ rest).getLast? = some '\r' then
        ⟨before.count '\n' + 2, 1⟩ else first.after before) := by
  have htest : (rest.isEmpty && (before ++ rest).getLast? == some '\r') = true ↔
      rest = [] ∧ (before ++ rest).getLast? = some '\r' := by
    rw [Bool.and_eq_true, List.isEmpty_iff, beq_iff_eq]
  rw [lineColumn?, splitAt?_append, Option.map_some]
  simp only [htest, first_after, Nat.add_comm 1]

/-- An offset has a position exactly where the text can be cut. -/
theorem lineColumn?_eq_some_iff :
    t.lineColumn? offset = some p ↔ ∃ before rest, t = before ++ rest ∧ before.size = offset ∧
      p = if rest = [] ∧ t.getLast? = some '\r' then ⟨before.count '\n' + 2, 1⟩
        else first.after before := by
  constructor
  · intro h
    have hboundary : t.IsBoundary offset := by
      rw [← isSome_lineColumn?, h]
      rfl
    obtain ⟨before, rest, rfl, rfl⟩ := isBoundary_iff.1 hboundary
    rw [lineColumn?_append, Option.some.injEq] at h
    exact ⟨before, rest, rfl, rfl, h.symm⟩
  · rintro ⟨before, rest, rfl, rfl, rfl⟩
    exact lineColumn?_append before rest

/-- **Positions grow with the offset.** -/
theorem before_of_lt {offset' : Nat} {p' : LineColumn} (h : t.lineColumn? offset = some p)
    (h' : t.lineColumn? offset' = some p') (hlt : offset < offset') : p.Before p' := by
  obtain ⟨a, b, rfl, rfl, rfl⟩ := lineColumn?_eq_some_iff.1 h
  obtain ⟨a', b', heq, rfl, rfl⟩ := lineColumn?_eq_some_iff.1 h'
  -- the part before the greater offset goes on behind the other one
  obtain ⟨x, rfl, hb⟩ : ∃ x, a' = a ++ x ∧ b = x ++ b' := by
    rcases List.append_eq_append_iff.1 heq with ⟨x, ha', hb⟩ | ⟨x, ha, -⟩
    · exact ⟨x, ha', hb⟩
    · rw [ha, size_append] at hlt
      omega
  have hx : x ≠ [] := by
    rintro rfl
    simp at hlt
  have hwalk : (first.after a).Before (first.after (a ++ x)) := by
    rw [after_append]
    exact before_after _ hx
  rw [if_neg (by simp [hb, hx])]
  by_cases hend : b' = [] ∧ (a ++ b).getLast? = some '\r'
  · -- the end of the text lies on a line after the walk
    rw [if_pos hend]
    refine hwalk.trans (.inl ?_)
    rw [first_after]
    show 1 + (a ++ x).count '\n' < (a ++ x).count '\n' + 2
    omega
  · rw [if_neg hend]
    exact hwalk

/-! ### Offsets of positions -/

/-- **What a walk finds:** the place where it comes to the position. -/
theorem seek_eq_some_iff {target p : LineColumn} {offset stop : Nat} :
    seek target t p offset = some stop ↔
      ∃ before rest, t = before ++ rest ∧ offset + before.size = stop ∧ p.after before = target := by
  induction t generalizing p offset with
  | nil =>
    rw [seek]
    constructor
    · intro h
      split at h
      · rename_i hp
        obtain rfl : offset = stop := by simpa using h
        exact ⟨[], [], rfl, rfl, hp⟩
      · simp at h
    · rintro ⟨before, rest, hnil, rfl, rfl⟩
      obtain ⟨rfl, rfl⟩ := List.append_eq_nil_iff.1 hnil.symm
      simp
  | cons c t ih =>
    rw [seek]
    by_cases hp : p = target
    · rw [if_pos hp, Option.some.injEq]
      constructor
      · rintro rfl
        exact ⟨[], c :: t, rfl, rfl, hp⟩
      · rintro ⟨before, rest, -, rfl, hafter⟩
        -- the walk stands on the position, and does not come back to it
        have hbefore : before = [] := by
          by_contra hne
          exact (before_after p hne).ne (hp.trans hafter.symm)
        rw [hbefore]
        rfl
    · rw [if_neg hp, ih]
      constructor
      · rintro ⟨before, rest, rfl, hsize, hafter⟩
        refine ⟨c :: before, rest, rfl, ?_, hafter⟩
        rw [size_cons]
        omega
      · rintro ⟨before, rest, heq, hsize, hafter⟩
        cases before with
        | nil => exact absurd hafter hp
        | cons d before =>
          obtain ⟨rfl, rfl⟩ := List.cons.inj heq
          refine ⟨before, rest, rfl, ?_, hafter⟩
          rw [size_cons] at hsize
          omega

/-- A walk from the front of a text finds the place behind which the position lies. -/
theorem seek_first_append (before rest : Text) :
    seek (first.after before) (before ++ rest) first 0 = some before.size :=
  seek_eq_some_iff.2 ⟨before, rest, rfl, Nat.zero_add _, rfl⟩

/-- **Positions lead back to their offsets.** -/
theorem offset?_of_lineColumn? (h : t.lineColumn? offset = some p) : t.offset? p = some offset := by
  unfold offset?
  split
  · rename_i hend
    -- two offsets of one position are the same
    have hle : offset ≤ t.size := by
      refine le_size_of_isBoundary (isSome_lineColumn?.1 ?_)
      rw [h]
      rfl
    rcases Nat.lt_or_eq_of_le hle with hlt | heq
    · exact absurd rfl (before_of_lt h hend hlt).ne
    · rw [heq]
  · rename_i hend
    obtain ⟨before, rest, rfl, rfl, rfl⟩ := lineColumn?_eq_some_iff.1 h
    have hplain : ¬ (rest = [] ∧ (before ++ rest).getLast? = some '\r') := by
      rintro ⟨rfl, -⟩
      rw [List.append_nil] at h hend
      exact hend h
    rw [if_neg hplain]
    exact seek_first_append before rest

/-- **Which positions have an offset:** those of an offset, and behind a last carriage return the
position at which a walk arrives. -/
theorem offset?_eq_some_iff :
    t.offset? p = some offset ↔ t.lineColumn? offset = some p ∨
      t.getLast? = some '\r' ∧ offset = t.size ∧ p = first.after t := by
  constructor
  · intro h
    unfold offset? at h
    split at h
    · rename_i hend
      obtain rfl : t.size = offset := by simpa using h
      exact .inl hend
    · -- behind a last carriage return the end of the text has a second position
      obtain ⟨before, rest, rfl, rfl, rfl⟩ := seek_eq_some_iff.1 h
      rw [Nat.zero_add, lineColumn?_append]
      by_cases hend : rest = [] ∧ (before ++ rest).getLast? = some '\r'
      · obtain ⟨rfl, hreturn⟩ := hend
        exact .inr ⟨hreturn, by simp, by simp⟩
      · rw [if_neg hend]
        exact .inl rfl
  · rintro (h | ⟨hreturn, rfl, rfl⟩)
    · exact offset?_of_lineColumn? h
    · have hwalk := seek_first_append t []
      rw [List.append_nil] at hwalk
      unfold offset?
      split
      · rfl
      · exact hwalk

/-! ### Positions from an index of lines -/

/-- The line before an offset is the last one of what stands before it. -/
theorem slice?_lastLine (before rest : Text) :
    (before ++ rest).slice? (before.size - before.lastLine.size) before.size =
      some before.lastLine := by
  obtain ⟨lines, hlines, -, -⟩ := exists_append_lastLine before
  have hsize : lines.size + before.lastLine.size = before.size := by
    rw [← size_append, ← hlines]
  refine slice?_eq_some_iff.2 ⟨lines, rest, ?_, ?_, ?_⟩
  · rw [← hlines]
  · omega
  · omega

/-- **A text that stops within a line on a line end** can only stop on a carriage return. -/
theorem stops_on_return_iff (before rest : Text) :
    (before.size = (before ++ rest).size ∧ before.lastLine.size ≠ 0 ∧
        ((before ++ rest).getLast? = some '\n' ∨ (before ++ rest).getLast? = some '\r')) ↔
      rest = [] ∧ (before ++ rest).getLast? = some '\r' := by
  rw [size_append]
  constructor
  · rintro ⟨hall, hne, hlast⟩
    obtain rfl : rest = [] := size_eq_zero.1 (by omega)
    rw [List.append_nil] at hlast ⊢
    refine ⟨rfl, hlast.resolve_left fun hfeed => hne ?_⟩
    rw [lastLine_of_endsLine, size_nil]
    intro c hc
    exact (Option.some.inj (hfeed.symm.trans hc)).symm
  · rintro ⟨rfl, hlast⟩
    refine ⟨by simp, ?_, .inr hlast⟩
    rw [List.append_nil] at hlast
    obtain ⟨front, rfl⟩ := List.getLast?_eq_some_iff.1 hlast
    rw [ne_eq, size_eq_zero, lastLine_concat, if_neg (by decide)]
    exact List.concat_ne_nil _ _

/-- What reading on along a line finds. -/
theorem columnOffset?_eq_some_iff {column offset stop : Nat} :
    t.columnOffset? column offset = some stop ↔ ∃ before rest, t = before ++ rest ∧
      offset + before.size = stop ∧ before.length = column ∧ '\n' ∉ before := by
  induction t generalizing column offset with
  | nil =>
    cases column with
    | zero => simp [columnOffset?]
    | succ column => simp [columnOffset?]
  | cons c t ih =>
    cases column with
    | zero => simp [columnOffset?]
    | succ column =>
      rw [columnOffset?]
      constructor
      · intro h
        split at h
        · simp at h
        · -- no line feed comes before the column is reached
          rename_i hc
          obtain ⟨before, rest, rfl, hsize, hlength, hline⟩ := ih.1 h
          refine ⟨c :: before, rest, rfl, ?_, by simp [hlength], ?_⟩
          · rw [size_cons]
            omega
          · rw [List.mem_cons, not_or]
            exact ⟨Ne.symm hc, hline⟩
      · rintro ⟨before, rest, heq, hsize, hlength, hline⟩
        cases before with
        | nil => simp at hlength
        | cons d before =>
          obtain ⟨rfl, rfl⟩ := List.cons.inj heq
          rw [List.mem_cons, not_or] at hline
          rw [if_neg (Ne.symm hline.1), ih]
          refine ⟨before, rest, rfl, ?_, by simpa using hlength, hline.2⟩
          rw [size_cons] at hsize
          omega

end Text

namespace LineIndex

open LineColumn Text

variable {t : Text} (index : LineIndex t)

/-- **The index gives the positions of walks.** -/
theorem lineColumn?_eq (offset : Nat) : index.lineColumn? offset = t.lineColumn? offset := by
  unfold lineColumn?
  split
  · rename_i hboundary
    obtain ⟨before, rest, rfl, rfl⟩ := isBoundary_iff.1 hboundary
    simp only [index.lineCol_size before rest rfl, slice?_lastLine, Option.map_some]
    rw [lineColumn?_append, first_after]
    have hstops := stops_on_return_iff before rest
    by_cases hreturn : rest = [] ∧ (before ++ rest).getLast? = some '\r'
    · rw [if_pos (hstops.2 hreturn), if_pos hreturn]
    · rw [if_neg (mt hstops.1 hreturn), if_neg hreturn, Nat.add_comm, Nat.add_comm _ 1]
  · rename_i hboundary
    rw [← isSome_lineColumn?, Bool.not_eq_true, Option.isSome_eq_false_iff,
      Option.isNone_iff_eq_none] at hboundary
    exact hboundary.symm

/-- Reading on from the start of a line comes to the place where a walk finds the position. -/
theorem bind_start?_eq (line column : Nat) :
    ((index.start? line).bind fun start =>
      (t.splitAt? start).bind fun parts => parts.2.columnOffset? column start) =
      seek ⟨line + 1, column + 1⟩ t first 0 := by
  refine Option.ext fun stop => ?_
  rw [seek_eq_some_iff, Option.bind_eq_some_iff]
  constructor
  · rintro ⟨start, hstart, h⟩
    -- the lines before the position, and the characters before it on its line
    obtain ⟨⟨lines, rest⟩, hparts, h⟩ := Option.bind_eq_some_iff.1 h
    obtain ⟨lines', rest', rfl, rfl, hcount, hends⟩ := (index.start?_eq_some_iff line start).1 hstart
    rw [splitAt?_append, Option.some.injEq, Prod.mk.injEq] at hparts
    obtain ⟨rfl, rfl⟩ := hparts
    obtain ⟨before, rest, rfl, rfl, hlength, hline⟩ := columnOffset?_eq_some_iff.1 h
    refine ⟨lines' ++ before, rest, by simp, by simp, ?_⟩
    rw [first_after, lastLine_append hline, lastLine_of_endsLine hends, List.count_append,
      List.count_eq_zero.2 hline, List.nil_append, hcount, hlength]
    simp [Nat.add_comm]
  · rintro ⟨before, rest, rfl, rfl, hafter⟩
    rw [first_after, LineColumn.mk.injEq] at hafter
    obtain ⟨hcount, hlength⟩ := hafter
    -- what is walked over is some lines and the front of another
    obtain ⟨lines, hlines, hends, hline⟩ := exists_append_lastLine before
    have htext : before ++ rest = lines ++ (before.lastLine ++ rest) := by
      rw [← List.append_assoc, ← hlines]
    have hcount' : lines.count '\n' = line := by
      rw [hlines, List.count_append, List.count_eq_zero.2 hline] at hcount
      omega
    refine ⟨lines.size, (index.start?_eq_some_iff _ _).2 ⟨lines, _, htext, rfl, hcount', hends⟩, ?_⟩
    rw [htext, splitAt?_append, Option.bind_some, columnOffset?_eq_some_iff]
    refine ⟨before.lastLine, rest, rfl, ?_, by omega, hline⟩
    rw [← size_append, ← hlines, Nat.zero_add]

/-- **The index gives the offsets of walks.** -/
theorem offset?_eq (p : LineColumn) : index.offset? p = t.offset? p := by
  unfold offset? Text.offset?
  rw [index.lineColumn?_eq]
  split
  · rfl
  · -- lines and columns are counted from one, so a walk never stands on a zero
    have hzero {q : LineColumn} (hq : q.line = 0 ∨ q.column = 0) : seek q t first 0 = none := by
      refine Option.eq_none_iff_forall_ne_some.2 fun stop h => ?_
      obtain ⟨before, rest, -, -, rfl⟩ := seek_eq_some_iff.1 h
      rw [first_after] at hq
      simp at hq
    split
    · exact (hzero (.inl rfl)).symm
    · exact (hzero (.inr rfl)).symm
    · exact index.bind_start?_eq _ _

end LineIndex

namespace Text

open LineColumn

/-- **Positions count lines and characters, and lead back.**  An offset has a position exactly where
a part of the text ends.  The line is one more than the line feeds before the offset and the column
one more than the characters since the last of them, but the end of a text that stops on a carriage
return is the first column of the next line.  Positions grow with the offset, and the offset of a
position is the one it belongs to.  An index of the lines gives the same positions and offsets. -/
theorem lineColumn?_counts (t : Text) :
    (∀ offset p, t.lineColumn? offset = some p ↔
      ∃ before rest, t = before ++ rest ∧ before.size = offset ∧
        p = if rest = [] ∧ t.getLast? = some '\r' then ⟨before.count '\n' + 2, 1⟩
          else ⟨1 + before.count '\n', 1 + before.lastLine.length⟩) ∧
    (∀ offset offset' p p', offset < offset' → t.lineColumn? offset = some p →
      t.lineColumn? offset' = some p' → p.Before p') ∧
    (∀ offset p, t.lineColumn? offset = some p → t.offset? p = some offset) ∧
    ∀ index : LineIndex t, index.lineColumn? = t.lineColumn? ∧ index.offset? = t.offset? := by
  refine ⟨?_, ?_, ?_, ?_⟩
  · intro offset p
    simp only [lineColumn?_eq_some_iff, first_after]
  · intro offset offset' p p' hlt h h'
    exact before_of_lt h h' hlt
  · intro offset p h
    exact offset?_of_lineColumn? h
  · intro index
    exact ⟨funext index.lineColumn?_eq, funext index.offset?_eq⟩

/-- The end of a text that stops on a carriage return. -/
theorem lineColumn?_counts_return :
    lineColumn? "a\n€\r".toList 5 = some ⟨2, 2⟩ ∧ lineColumn? "a\n€\r".toList 6 = some ⟨3, 1⟩ ∧
      LineColumn.Before ⟨2, 2⟩ ⟨3, 1⟩ ∧ offset? "a\n€\r".toList ⟨3, 1⟩ = some 6 ∧
      (LineIndex.ofText "a\n€\r".toList).lineColumn? 6 = some ⟨3, 1⟩ := by
  obtain ⟨hposition, hbefore, hoffset, hindex⟩ := lineColumn?_counts "a\n€\r".toList
  have hline : lineColumn? "a\n€\r".toList 5 = some ⟨2, 2⟩ :=
    (hposition 5 ⟨2, 2⟩).2 ⟨"a\n€".toList, ['\r'], by decide, by decide, by decide⟩
  have hend : lineColumn? "a\n€\r".toList 6 = some ⟨3, 1⟩ :=
    (hposition 6 ⟨3, 1⟩).2 ⟨"a\n€\r".toList, [], by decide, by decide, by decide⟩
  refine ⟨hline, hend, hbefore 5 6 _ _ (by decide) hline hend, hoffset 6 _ hend, ?_⟩
  rw [(hindex (LineIndex.ofText _)).1]
  exact hend

/-- **Which positions are accepted.**  Those of an offset, which is the answer then; and where the
text stops on a carriage return, also the position at which a walk arrives at the end, although the
end is reported on the next line.  So two positions have one offset only at the end of such a text,
and no other position without an offset is accepted. -/
theorem offset?_accepts (t : Text) :
    (∀ p offset, t.offset? p = some offset ↔ t.lineColumn? offset = some p ∨
      t.getLast? = some '\r' ∧ offset = t.size ∧ p = first.after t) ∧
    (∀ p q offset, t.getLast? ≠ some '\r' ∨ offset ≠ t.size → t.offset? p = some offset →
      t.offset? q = some offset → p = q) ∧
    ∀ p, t.getLast? ≠ some '\r' ∨ p ≠ first.after t → (∀ offset, t.lineColumn? offset ≠ some p) →
      t.offset? p = none := by
  refine ⟨fun p offset => offset?_eq_some_iff, ?_, ?_⟩
  · intro p q offset hend hp hq
    have genuine {r : LineColumn} (hr : t.offset? r = some offset) :
        t.lineColumn? offset = some r := by
      rcases offset?_eq_some_iff.1 hr with h | ⟨hreturn, hsize, -⟩
      · exact h
      · exact absurd hend (by simp [hreturn, hsize])
    exact Option.some.inj ((genuine hp).symm.trans (genuine hq))
  · intro p hend hnone
    refine Option.eq_none_iff_forall_ne_some.2 fun offset hp => ?_
    rcases offset?_eq_some_iff.1 hp with h | ⟨hreturn, -, hwalk⟩
    · exact hnone offset h
    · exact absurd hend (by simp [hreturn, hwalk])

/-- A text that stops on a line feed has a position for its end only. -/
theorem offset?_accepts_feed :
    offset? "a\n".toList ⟨2, 1⟩ = some 2 ∧ offset? "a\n".toList ⟨1, 3⟩ = none ∧
      ∀ p, offset? "a\n".toList p = some 2 → p = ⟨2, 1⟩ := by
  obtain ⟨haccepts, hinjective, hrejects⟩ := offset?_accepts "a\n".toList
  have hend : offset? "a\n".toList ⟨2, 1⟩ = some 2 := (haccepts _ 2).2 (.inl (by decide))
  have hfeed : "a\n".toList.getLast? ≠ some '\r' := by decide
  refine ⟨hend, hrejects _ (.inl hfeed) ?_, fun p hp => hinjective p _ 2 (.inl hfeed) hp hend⟩
  intro offset h
  have hle : offset ≤ 2 := by
    refine le_size_of_isBoundary (t := "a\n".toList) (isSome_lineColumn?.1 ?_)
    rw [h]
    rfl
  have hnone : ∀ n ≤ 2, lineColumn? "a\n".toList n ≠ some ⟨1, 3⟩ := by decide
  exact hnone offset hle h

/-- **Behind a last carriage return two positions have one offset**, and one of them is not the
position of that offset. -/
theorem offset?_last_return :
    offset? "a\r".toList ⟨1, 3⟩ = some 2 ∧ lineColumn? "a\r".toList 2 = some ⟨2, 1⟩ ∧
      offset? "a\r".toList ⟨2, 1⟩ = some 2 := by
  decide

end Text

end GoTree
