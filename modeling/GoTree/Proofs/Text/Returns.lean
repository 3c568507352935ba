import Mathlib.Data.List.Basic
import Mathlib.Order.Lattice
import GoTree.Proofs.Text.Bytes

/-!
# Line feeds with carriage returns

Lines may end with a line feed alone or with a carriage return before it.  Putting the carriage
returns in moves every offset by the number of line feeds before it and leaves all lines and columns
as they are: the new character stands at the end of its line.

## Main definitions

* `Text.withReturns`: a text with a carriage return before every line feed
* `Text.widen`: the same for bytes
* `Text.shift`: where an offset of the text lies in that text

## Main results

* `Text.withoutReturns_withReturns`: taking the carriage returns out again
* `Text.shift_lt_shift`: offsets keep their order
* `Text.splitAt?_shift`, `Text.slice?_shift`, `Text.bytesIn_shift`: cuts and slices move with their
  offsets
* `Text.lineColumn?_shift`: positions stay
-/

namespace GoTree.Text

/-! ### Characters -/

/-- **A text with a carriage return before every line feed.** -/
def withReturns : Text → Text
  | [] => []
  | c :: t => if c = '\n' then '\r' :: '\n' :: withReturns t else c :: withReturns t

@[simp]
theorem withReturns_nil : withReturns [] = [] := rfl

@[simp]
theorem withReturns_newline (t : Text) :
    withReturns ('\n' :: t) = '\r' :: '\n' :: withReturns t := rfl

theorem withReturns_cons {c : Char} (h : c ≠ '\n') (t : Text) :
    withReturns (c :: t) = c :: withReturns t :=
  if_neg h

@[simp]
theorem withReturns_append (s t : Text) :
    withReturns (s ++ t) = withReturns s ++ withReturns t := by
  induction s with
  | nil => rfl
  | cons c s ih =>
    by_cases hc : c = '\n'
    · subst hc
      simp [ih]
    · simp [withReturns_cons hc, ih]

@[simp]
theorem withReturns_eq_nil {t : Text} : withReturns t = [] ↔ t = [] := by
  cases t with
  | nil => simp
  | cons c t =>
    by_cases hc : c = '\n'
    · simp [hc]
    · simp [withReturns_cons hc]

theorem newline_mem_withReturns {t : Text} : '\n' ∈ withReturns t ↔ '\n' ∈ t := by
  induction t with
  | nil => rfl
  | cons c t ih =>
    by_cases hc : c = '\n'
    · simp [hc]
    · rw [withReturns_cons hc, List.mem_cons, List.mem_cons, ih]

/-- A line stays as it is. -/
theorem withReturns_of_not_mem {t : Text} (h : '\n' ∉ t) : withReturns t = t := by
  induction t with
  | nil => rfl
  | cons c t ih =>
    rw [List.mem_cons, not_or] at h
    rw [withReturns_cons (Ne.symm h.1), ih h.2]

/-- **Taking the carriage returns out again** takes out those that were put in. -/
theorem withoutReturns_withReturns (t : Text) :
    withoutReturns (withReturns t) = withoutReturns t := by
  induction t with
  | nil => rfl
  | cons c t ih =>
    by_cases hc : c = '\n'
    · subst hc
      rw [withReturns_newline, withoutReturns_return, withoutReturns_cons (by decide),
        withoutReturns_cons (by decide), ih]
    · rw [withReturns_cons hc]
      simp only [withoutReturns] at ih
      simp only [withoutReturns, List.filter_cons, ih]

theorem size_withReturns (t : Text) : (withReturns t).size = t.size + t.count '\n' := by
  induction t with
  | nil => rfl
  | cons c t ih =>
    by_cases hc : c = '\n'
    · subst hc
      have hone : '\r'.utf8Size = 1 := rfl
      simp only [withReturns_newline, size_cons, List.count_cons_self, ih, hone]
      omega
    · rw [withReturns_cons hc, size_cons, size_cons, List.count_cons_of_ne hc, ih]
      omega

/-- A text with carriage returns before its line feeds ends as the text does. -/
theorem getLast?_withReturns (t : Text) : (withReturns t).getLast? = t.getLast? := by
  induction t with
  | nil => rfl
  | cons c t ih =>
    by_cases hc : c = '\n'
    · subst hc
      rw [withReturns_newline, List.getLast?_cons, List.getLast?_cons, List.getLast?_cons, ih]
      rfl
    · rw [withReturns_cons hc, List.getLast?_cons, List.getLast?_cons, ih]

/-- The first character is the same unless the text starts with a line feed. -/
theorem head?_withReturns {t : Text} {c : Char} (hreturn : c ≠ '\r') (hfeed : c ≠ '\n') :
    (withReturns t).head? = some c ↔ t.head? = some c := by
  cases t with
  | nil => simp
  | cons d t =>
    by_cases hd : d = '\n'
    · subst hd
      simp [hreturn.symm, hfeed.symm]
    · simp [withReturns_cons hd]

/-- **The cuts of a text with carriage returns:** those of the text, and one before each line
feed. -/
theorem withReturns_eq_append {t a b : Text} (h : withReturns t = a ++ b) :
    (∃ x y, t = x ++ y ∧ a = withReturns x ∧ b = withReturns y) ∨
      ∃ x y, t = x ++ '\n' :: y ∧ a = withReturns x ++ ['\r'] ∧ b = '\n' :: withReturns y := by
  induction t generalizing a with
  | nil =>
    rw [withReturns_nil, eq_comm, List.append_eq_nil_iff] at h
    exact .inl ⟨[], [], rfl, h.1, h.2⟩
  | cons c t ih =>
    cases a with
    | nil => exact .inl ⟨[], c :: t, rfl, rfl, h.symm⟩
    | cons d a =>
      by_cases hc : c = '\n'
      · subst hc
        rw [withReturns_newline, List.cons_append] at h
        obtain ⟨rfl, hrest⟩ := List.cons.inj h
        cases a with
        -- the cut is between the carriage return and the line feed
        | nil => exact .inr ⟨[], t, rfl, rfl, hrest.symm⟩
        | cons e a =>
          obtain ⟨rfl, htail⟩ := List.cons.inj hrest
          rcases ih htail with ⟨x, y, rfl, rfl, rfl⟩ | ⟨x, y, rfl, rfl, rfl⟩
          · exact .inl ⟨'\n' :: x, y, rfl, rfl, rfl⟩
          · exact .inr ⟨'\n' :: x, y, rfl, rfl, rfl⟩
      · rw [withReturns_cons hc] at h
        obtain ⟨rfl, hrest⟩ := List.cons.inj h
        rcases ih hrest with ⟨x, y, rfl, rfl, rfl⟩ | ⟨x, y, rfl, rfl, rfl⟩
        · exact .inl ⟨c :: x, y, rfl, (withReturns_cons hc x).symm, rfl⟩
        · exact .inr ⟨c :: x, y, rfl, by rw [withReturns_cons hc]; rfl, rfl⟩

/-- A front that stays within its line is a front of the text. -/
theorem exists_of_withReturns_eq_append {t a b : Text} (h : withReturns t = a ++ b)
    (hfeed : '\n' ∉ a) (hlast : a.getLast? ≠ some '\r') :
    ∃ y, t = a ++ y ∧ b = withReturns y := by
  rcases withReturns_eq_append h with ⟨x, y, rfl, rfl, rfl⟩ | ⟨x, y, rfl, rfl, rfl⟩
  · have hx : withReturns x = x := withReturns_of_not_mem (mt newline_mem_withReturns.2 hfeed)
    exact ⟨y, by rw [hx], rfl⟩
  · simp at hlast

/-- A last line is the last line of the text. -/
theorem exists_of_withReturns_eq_append' {t a b : Text} (h : withReturns t = a ++ b)
    (hfeed : '\n' ∉ b) : ∃ x, t = x ++ b ∧ a = withReturns x := by
  rcases withReturns_eq_append h with ⟨x, y, rfl, rfl, rfl⟩ | ⟨x, y, rfl, rfl, rfl⟩
  · have hy : withReturns y = y := withReturns_of_not_mem (mt newline_mem_withReturns.2 hfeed)
    exact ⟨x, by rw [hy], rfl⟩
  · simp at hfeed

/-! ### Bytes -/

/-- Bytes with a carriage return before every line feed. -/
def widen (bs : List UInt8) : List UInt8 :=
  bs.flatMap fun b => if b = 0x0a then [0x0d, 0x0a] else [b]

@[simp]
theorem widen_nil : widen [] = [] := rfl

theorem widen_cons (b : UInt8) (bs : List UInt8) :
    widen (b :: bs) = (if b = 0x0a then [0x0d, 0x0a] else [b]) ++ widen bs := rfl

theorem widen_append (bs cs : List UInt8) : widen (bs ++ cs) = widen bs ++ widen cs :=
  List.flatMap_append

theorem widen_of_not_mem {bs : List UInt8} (h : 0x0a ∉ bs) : widen bs = bs := by
  induction bs with
  | nil => rfl
  | cons b bs ih =>
    rw [List.mem_cons, not_or] at h
    rw [widen_cons, if_neg (Ne.symm h.1), ih h.2, List.singleton_append]

theorem length_widen (bs : List UInt8) : (widen bs).length = bs.length + bs.count 0x0a := by
  induction bs with
  | nil => rfl
  | cons b bs ih =>
    rw [widen_cons, List.length_append, ih]
    by_cases hb : b = 0x0a
    · subst hb
      simp only [if_pos, List.length_cons, List.length_nil, List.count_cons_self]
      omega
    · rw [if_neg hb, List.count_cons_of_ne hb, List.length_singleton, List.length_cons]
      omega

/-- Only the line feed has its byte. -/
theorem not_lineFeed_mem_utf8EncodeChar {c : Char} (h : c ≠ '\n') :
    (0x0a : UInt8) ∉ String.utf8EncodeChar c := by
  intro hmem
  have hlt := toNat_lt_of_mem_utf8EncodeChar hmem (by decide)
  rw [utf8EncodeChar_of_lt hlt, List.mem_singleton] at hmem
  refine h (Char.ext (UInt32.toNat_inj.1 ?_))
  have hbyte := congrArg UInt8.toNat hmem
  rw [UInt8.toNat_ofNat'] at hbyte
  have hval : c.toNat = 10 := by
    simp only [UInt8.reduceToNat] at hbyte
    omega
  exact hval

/-- The encoding of a text with carriage returns. -/
theorem bytes_withReturns (t : Text) : (withReturns t).bytes = widen t.bytes := by
  induction t with
  | nil => rfl
  | cons c t ih =>
    by_cases hc : c = '\n'
    · subst hc
      rw [withReturns_newline, bytes_cons, bytes_cons, bytes_cons, ih, widen_append]
      rfl
    · rw [withReturns_cons hc, bytes_cons, bytes_cons, ih, widen_append,
        widen_of_not_mem (not_lineFeed_mem_utf8EncodeChar hc)]

theorem count_bytes (t : Text) : t.bytes.count 0x0a = t.count '\n' := by
  have hsize := congrArg List.length (bytes_withReturns t)
  rw [length_bytes, length_widen, length_bytes, size_withReturns] at hsize
  omega

/-! ### Offsets -/

/-- **Where an offset of a text lies** in the text with carriage returns: further on by the line
feeds before it. -/
def shift (t : Text) (n : Nat) : Nat :=
  n + (t.bytes.take n).count 0x0a

@[simp]
theorem shift_zero (t : Text) : t.shift 0 = 0 := by
  simp [shift]

/-- **Offsets keep their order.** -/
theorem shift_lt_shift {t : Text} {n k : Nat} : t.shift n < t.shift k ↔ n < k := by
  have hmono {n k : Nat} (h : n ≤ k) :
      (t.bytes.take n).count 0x0a ≤ (t.bytes.take k).count 0x0a :=
    (List.take_sublist_take_left h).count_le _
  unfold shift
  constructor
  · intro h
    by_contra hle
    have hcount := hmono (Nat.not_lt.1 hle)
    omega
  · intro h
    have hcount := hmono (Nat.le_of_lt h)
    omega

theorem shift_le_shift {t : Text} {n k : Nat} : t.shift n ≤ t.shift k ↔ n ≤ k := by
  rw [← Nat.not_lt, shift_lt_shift, Nat.not_lt]

theorem shift_inj {t : Text} {n k : Nat} : t.shift n = t.shift k ↔ n = k := by
  rw [Nat.le_antisymm_iff, shift_le_shift, shift_le_shift, ← Nat.le_antisymm_iff]

theorem monotone_shift (t : Text) : Monotone t.shift :=
  fun _ _ => shift_le_shift.2

/-- Behind a front of the text, offsets move with those of the rest. -/
theorem shift_append (a b : Text) (n : Nat) :
    (a ++ b).shift (a.size + n) = (withReturns a).size + b.shift n := by
  have htake : (a ++ b).bytes.take (a.size + n) = a.bytes ++ b.bytes.take n := by
    rw [bytes_append, ← length_bytes, List.take_length_add_append]
  rw [shift, htake, List.count_append, count_bytes, size_withReturns, shift]
  omega

/-- Where a front of the text stops. -/
theorem shift_size_append (a b : Text) : (a ++ b).shift a.size = (withReturns a).size := by
  simpa using shift_append a b 0

/-- The whole text. -/
theorem shift_size (t : Text) : t.shift t.size = (withReturns t).size := by
  simpa using shift_size_append t []

/-- **Cuts move with their offsets.** -/
theorem splitAt?_shift (t : Text) (n : Nat) :
    (withReturns t).splitAt? (t.shift n) =
      (t.splitAt? n).map fun parts => (withReturns parts.1, withReturns parts.2) := by
  cases hcut : t.splitAt? n with
  | some parts =>
    obtain ⟨a, b⟩ := parts
    obtain ⟨rfl, rfl⟩ := splitAt?_eq_some_iff.1 hcut
    rw [shift_size_append, withReturns_append, splitAt?_append]
    rfl
  | none =>
    -- no new cut arises: one between the two characters of a line break is no shifted offset
    cases hcut' : (withReturns t).splitAt? (t.shift n) with
    | none => rfl
    | some parts =>
      exfalso
      obtain ⟨a, b⟩ := parts
      obtain ⟨htext, hsize⟩ := splitAt?_eq_some_iff.1 hcut'
      rcases withReturns_eq_append htext with ⟨x, y, rfl, rfl, rfl⟩ | ⟨x, y, rfl, rfl, rfl⟩
      · rw [← shift_size_append x y, shift_inj] at hsize
        rw [← hsize, splitAt?_append] at hcut
        simp at hcut
      · -- the offset would lie between the carriage return and its line feed
        have hone : Text.size ['\n'] = 1 := rfl
        have hnext := shift_append x ('\n' :: y) 1
        have hfeed : Text.shift ('\n' :: y) 1 = 2 := rfl
        rw [size_append, ← shift_size_append x ('\n' :: y)] at hsize
        rw [hfeed, ← shift_size_append x ('\n' :: y)] at hnext
        have hreturn : Text.size ['\r'] = 1 := rfl
        have hlt := shift_lt_shift (t := x ++ '\n' :: y) (n := size x) (k := n)
        have hlt' := shift_lt_shift (t := x ++ '\n' :: y) (n := n) (k := size x + 1)
        omega

/-- **Slices move with their offsets.** -/
theorem slice?_shift (t : Text) (start stop : Nat) :
    (withReturns t).slice? (t.shift start) (t.shift stop) =
      (t.slice? start stop).map withReturns := by
  unfold slice?
  by_cases hle : start ≤ stop
  · rw [if_pos hle, if_pos (shift_le_shift.2 hle), splitAt?_shift]
    cases hcut : t.splitAt? start with
    | none => rfl
    | some parts =>
      obtain ⟨a, b⟩ := parts
      obtain ⟨rfl, rfl⟩ := splitAt?_eq_some_iff.1 hcut
      have hstop : (a ++ b).shift stop - (a ++ b).shift a.size = b.shift (stop - a.size) := by
        have hadd := shift_append a b (stop - a.size)
        rw [Nat.add_sub_cancel' hle, ← shift_size_append a b] at hadd
        omega
      simp only [Option.map_some, Option.bind_some, hstop, splitAt?_shift, Option.map_map]
      rfl
  · rw [if_neg hle, if_neg (fun h => hle (shift_le_shift.1 h))]
    rfl

theorem take_widen (bs : List UInt8) (n : Nat) :
    (widen bs).take (n + (bs.take n).count 0x0a) = widen (bs.take n) := by
  by_cases hle : n ≤ bs.length
  · -- the front of the bytes is widened to just this many
    have hlength : n + (bs.take n).count 0x0a = (widen (bs.take n)).length := by
      rw [length_widen, List.length_take, Nat.min_eq_left hle]
    rw [hlength]
    nth_rewrite 2 [← List.take_append_drop n bs]
    rw [widen_append, List.take_left]
  · have hall : bs.take n = bs := List.take_of_length_le (Nat.le_of_not_le hle)
    rw [hall, List.take_of_length_le]
    rw [length_widen]
    omega

theorem drop_widen (bs : List UInt8) (n : Nat) :
    (widen bs).drop (n + (bs.take n).count 0x0a) = widen (bs.drop n) := by
  have hsplit := List.take_append_drop (n + (bs.take n).count 0x0a) (widen bs)
  rw [take_widen] at hsplit
  refine List.append_cancel_left (hsplit.trans ?_)
  rw [← widen_append, List.take_append_drop]

/-- **The bytes between two offsets.** -/
theorem bytesIn_shift (t : Text) (start stop : Nat) :
    (withReturns t).bytesIn (t.shift start) (t.shift stop) = widen (t.bytesIn start stop) := by
  have hcut (bs : List UInt8) {n k : Nat} (h : n ≤ k) :
      (bs.drop n).take (k - n) = (bs.take k).drop n := by
    rw [List.drop_take]
  unfold bytesIn
  by_cases hle : start ≤ stop
  · rw [hcut _ hle, hcut _ (shift_le_shift.2 hle), bytes_withReturns, shift, shift, take_widen,
      ← drop_widen, List.take_take, Nat.min_eq_left hle]
  · have hle' : ¬ t.shift start ≤ t.shift stop := mt shift_le_shift.1 hle
    rw [Nat.sub_eq_zero_of_le (Nat.le_of_not_le hle),
      Nat.sub_eq_zero_of_le (Nat.le_of_not_le hle')]
    simp

/-! ### Positions -/

theorem after_withReturns (p : LineColumn) (t : Text) : p.after (withReturns t) = p.after t := by
  induction t generalizing p with
  | nil => rfl
  | cons c t ih =>
    by_cases hc : c = '\n'
    · subst hc
      -- the carriage return counts as a column of a line that ends right behind it
      rw [withReturns_newline, LineColumn.after_cons, LineColumn.after_cons, LineColumn.after_cons,
        ih]
      rfl
    · rw [withReturns_cons hc, LineColumn.after_cons, LineColumn.after_cons, ih]

/-- **Positions stay**, in a text that has no other carriage returns. -/
theorem lineColumn?_shift {t : Text} (h : '\r' ∉ t) (n : Nat) :
    (withReturns t).lineColumn? (t.shift n) = t.lineColumn? n := by
  have hlast : t.getLast? ≠ some '\r' := fun hlast => h (List.mem_of_getLast? hlast)
  unfold lineColumn?
  rw [splitAt?_shift, getLast?_withReturns, Option.map_map]
  congr 1
  funext parts
  simp [after_withReturns, hlast]

end GoTree.Text
