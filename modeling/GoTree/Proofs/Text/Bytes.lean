import Mathlib.Tactic.Common
import GoTree.Text.Position

/-!
# Bytes of a text

A gap is examined byte by byte, while leaves are cut out of the text by characters.  The two meet
because a byte below `0x80` is a character of its own and all bytes of a longer character are
greater: cutting the encoding next to such bytes cuts the text.

## Main definitions

* `Text.Blank`: texts whose bytes only separate tokens
* `Text.BlankBetween`: offsets with only such bytes between them

## Main results

* `Text.exists_append_of_bytes_left`, `Text.exists_append_of_bytes_right`: cutting the encoding
  after or before bytes below `0x80`
* `Text.bytesIn_of_slice?`: the bytes between two offsets are the encoding of the slice
* `Text.blank_iff_bytes`: blanks by characters and by bytes
-/

namespace GoTree.Text

/-! ### Encodings -/

@[simp]
theorem bytes_nil : bytes [] = [] := rfl

@[simp]
theorem bytes_cons (c : Char) (t : Text) :
    bytes (c :: t) = String.utf8EncodeChar c ++ bytes t := rfl

@[simp]
theorem bytes_append (s t : Text) : bytes (s ++ t) = bytes s ++ bytes t := by
  simp [bytes]

/-- A text is determined by its encoding. -/
theorem eq_of_bytes_eq {s t : Text} (h : s.bytes = t.bytes) : s = t := by
  have hencode : s.utf8Encode = t.utf8Encode := congrArg List.toByteArray h
  have hofList : String.ofList s = String.ofList t := by
    rw [← String.toByteArray_inj, String.toByteArray_ofList, String.toByteArray_ofList, hencode]
  rw [← String.toList_ofList (l := s), hofList, String.toList_ofList]

theorem utf8EncodeChar_of_lt {c : Char} (h : c.toNat < 0x80) :
    String.utf8EncodeChar c = [UInt8.ofNat c.toNat] := by
  have hle : c.val.toNat ≤ 0x7f := Nat.le_of_lt_succ h
  simp only [String.utf8EncodeChar, if_pos hle]
  rfl

/-- All bytes of a character beyond the first 128 are at least `0x80`. -/
theorem le_of_mem_utf8EncodeChar {c : Char} (h : 0x80 ≤ c.toNat) {b : UInt8}
    (hb : b ∈ String.utf8EncodeChar c) : 0x80 ≤ b := by
  have hgt : ¬ c.val.toNat ≤ 0x7f := Nat.not_le.2 h
  -- every byte of a longer encoding is a remainder on top of its mark
  have tail (n m : Nat) (hm : 0 < m) (hm' : m ≤ 0x40) (k : Nat) (hk : 0x80 ≤ k)
      (hk' : k + m ≤ 0x100) : 0x80 ≤ UInt8.ofNat (n % m + k) := by
    have hlt : n % m < m := Nat.mod_lt n hm
    rw [UInt8.le_iff_toNat_le, UInt8.toNat_ofNat']
    simp only [UInt8.reduceToNat]
    omega
  simp only [String.utf8EncodeChar, if_neg hgt] at hb
  split at hb
  · simp only [List.mem_cons, List.not_mem_nil, or_false] at hb
    rcases hb with rfl | rfl
    · exact tail _ 0x20 (by omega) (by omega) _ (by omega) (by omega)
    · exact tail _ 0x40 (by omega) (by omega) _ (by omega) (by omega)
  · split at hb
    · simp only [List.mem_cons, List.not_mem_nil, or_false] at hb
      rcases hb with rfl | rfl | rfl
      · exact tail _ 0x10 (by omega) (by omega) _ (by omega) (by omega)
      · exact tail _ 0x40 (by omega) (by omega) _ (by omega) (by omega)
      · exact tail _ 0x40 (by omega) (by omega) _ (by omega) (by omega)
    · simp only [List.mem_cons, List.not_mem_nil, or_false] at hb
      rcases hb with rfl | rfl | rfl | rfl
      · exact tail _ 0x08 (by omega) (by omega) _ (by omega) (by omega)
      · exact tail _ 0x40 (by omega) (by omega) _ (by omega) (by omega)
      · exact tail _ 0x40 (by omega) (by omega) _ (by omega) (by omega)
      · exact tail _ 0x40 (by omega) (by omega) _ (by omega) (by omega)

/-- A character one of whose bytes is below `0x80` is that byte. -/
theorem toNat_lt_of_mem_utf8EncodeChar {c : Char} {b : UInt8}
    (hb : b ∈ String.utf8EncodeChar c) (h : b < 0x80) : c.toNat < 0x80 := by
  by_contra hc
  have hle := le_of_mem_utf8EncodeChar (Nat.not_lt.1 hc) hb
  exact absurd (UInt8.lt_of_lt_of_le h hle) (UInt8.lt_irrefl b)

/-! ### Cutting encodings -/

/-- **A text can be cut after bytes below `0x80`** at its front. -/
theorem exists_append_of_bytes_left {t : Text} {p r : List UInt8} (h : t.bytes = p ++ r)
    (hp : ∀ b ∈ p, b < 0x80) : ∃ x y, t = x ++ y ∧ x.bytes = p ∧ y.bytes = r := by
  induction p generalizing t with
  | nil => exact ⟨[], t, rfl, rfl, by simpa using h⟩
  | cons b p ih =>
    cases t with
    | nil => simp at h
    | cons c t =>
      rw [bytes_cons] at h
      have hmem : b ∈ String.utf8EncodeChar c := by
        cases hc : String.utf8EncodeChar c with
        | nil => exact absurd hc String.utf8EncodeChar_ne_nil
        | cons d ds =>
          rw [hc, List.cons_append, List.cons_append] at h
          simp [(List.cons.inj h).1]
      have hlt := toNat_lt_of_mem_utf8EncodeChar hmem (hp b (by simp))
      rw [utf8EncodeChar_of_lt hlt, List.singleton_append, List.cons_append] at h
      obtain ⟨hb, h⟩ := List.cons.inj h
      obtain ⟨x, y, rfl, hx, hy⟩ := ih h fun d hd => hp d (by simp [hd])
      refine ⟨c :: x, y, rfl, ?_, hy⟩
      rw [bytes_cons, utf8EncodeChar_of_lt hlt, hx, List.singleton_append, hb]

/-- **A text can be cut before a byte below `0x80`.** -/
theorem exists_append_of_bytes_head {t : Text} {p r : List UInt8} (h : t.bytes = p ++ r)
    (hr : ∀ b ∈ r.head?, b < 0x80) : ∃ x y, t = x ++ y ∧ x.bytes = p ∧ y.bytes = r := by
  induction t generalizing p with
  | nil => exact ⟨[], [], rfl, by simp_all, by simp_all⟩
  | cons c t ih =>
    rw [bytes_cons] at h
    -- either `p` holds all of the first character, or `r` holds a part of it
    rcases List.append_eq_append_iff.1 h with ⟨q, hp, ht⟩ | ⟨q, hc, hrq⟩
    · obtain ⟨x, y, rfl, hx, hy⟩ := ih ht
      exact ⟨c :: x, y, rfl, by simp [hp, hx], hy⟩
    · cases q with
      | nil =>
        rw [List.append_nil] at hc
        exact ⟨[c], t, rfl, by simpa using hc, hrq.symm⟩
      | cons b q =>
        have hmem : b ∈ String.utf8EncodeChar c := by simp [hc]
        have hlt := toNat_lt_of_mem_utf8EncodeChar hmem (hr b (by simp [hrq]))
        rw [utf8EncodeChar_of_lt hlt] at hc
        have hp : p = [] := by
          cases p with
          | nil => rfl
          | cons d p => simp at hc
        subst hp
        exact ⟨[], c :: t, rfl, rfl, h⟩

/-- **A text can be cut before bytes below `0x80`** at its end. -/
theorem exists_append_of_bytes_right {t : Text} {p r : List UInt8} (h : t.bytes = p ++ r)
    (hr : ∀ b ∈ r, b < 0x80) : ∃ x y, t = x ++ y ∧ x.bytes = p ∧ y.bytes = r :=
  exists_append_of_bytes_head h fun b hb => hr b (List.mem_of_mem_head? hb)

/-- The bytes between two offsets are the encoding of the characters between them. -/
theorem bytesIn_of_slice? {t x : Text} {start stop : Nat} (h : t.slice? start stop = some x) :
    t.bytesIn start stop = x.bytes := by
  obtain ⟨a, b, rfl, rfl, rfl⟩ := slice?_eq_some_iff.1 h
  simp only [bytesIn, bytes_append, List.append_assoc]
  rw [← length_bytes a, List.drop_left, ← length_bytes x, Nat.add_sub_cancel_left, List.take_left]

/-! ### Boundaries -/

theorem isBoundary_of_append {t a b : Text} (h : t = a ++ b) : t.IsBoundary a.size := by
  rw [IsBoundary, splitAt?_eq_some_iff.2 ⟨h, rfl⟩]
  rfl

theorem isBoundary_iff {t : Text} {n : Nat} :
    t.IsBoundary n ↔ ∃ a b, t = a ++ b ∧ a.size = n := by
  constructor
  · intro h
    obtain ⟨⟨a, b⟩, hab⟩ := Option.isSome_iff_exists.1 h
    exact ⟨a, b, splitAt?_eq_some_iff.1 hab⟩
  · rintro ⟨a, b, h, rfl⟩
    exact isBoundary_of_append h

/-- Both ends of a slice are boundaries. -/
theorem isBoundary_of_slice? {t x : Text} {start stop : Nat} (h : t.slice? start stop = some x) :
    t.IsBoundary start ∧ t.IsBoundary stop := by
  obtain ⟨a, b, rfl, rfl, rfl⟩ := slice?_eq_some_iff.1 h
  refine ⟨isBoundary_of_append (List.append_assoc ..), ?_⟩
  rw [← size_append]
  exact isBoundary_of_append rfl

/-- Between two boundaries in order stands a slice. -/
theorem exists_slice?_of_isBoundary {t : Text} {start stop : Nat} (hstart : t.IsBoundary start)
    (hstop : t.IsBoundary stop) (hle : start ≤ stop) : ∃ x, t.slice? start stop = some x := by
  obtain ⟨a, b, rfl, rfl⟩ := isBoundary_iff.1 hstart
  obtain ⟨c, d, hcd, rfl⟩ := isBoundary_iff.1 hstop
  rcases List.append_eq_append_iff.1 hcd with ⟨x, rfl, rfl⟩ | ⟨x, rfl, rfl⟩
  · exact ⟨x, slice?_eq_some_iff.2 ⟨a, d, by simp, rfl, by simp⟩⟩
  · have hx : x = [] := by
      rw [← size_eq_zero]
      simp only [size_append] at hle
      omega
    subst hx
    exact ⟨[], slice?_eq_some_iff.2 ⟨c, b, by simp, by simp, by simp⟩⟩

/-- Nothing stands between a boundary and itself. -/
theorem slice?_self {t : Text} {n : Nat} (h : t.IsBoundary n) : t.slice? n n = some [] := by
  obtain ⟨a, b, rfl, rfl⟩ := isBoundary_iff.1 h
  exact slice?_eq_some_iff.2 ⟨a, b, by simp, rfl, by simp⟩

theorem le_of_slice? {t x : Text} {start stop : Nat} (h : t.slice? start stop = some x) :
    start ≤ stop := by
  obtain ⟨a, b, rfl, rfl, rfl⟩ := slice?_eq_some_iff.1 h
  omega

theorem le_size_of_slice? {t x : Text} {start stop : Nat} (h : t.slice? start stop = some x) :
    stop ≤ t.size :=
  le_size_of_isBoundary (isBoundary_of_slice? h).2

/-- Two neighbouring slices make up one. -/
theorem slice?_append {t x y : Text} {start middle stop : Nat}
    (hx : t.slice? start middle = some x) (hy : t.slice? middle stop = some y) :
    t.slice? start stop = some (x ++ y) := by
  obtain ⟨a, b, rfl, rfl, rfl⟩ := slice?_eq_some_iff.1 hx
  obtain ⟨c, d, hcd, hc, rfl⟩ := slice?_eq_some_iff.1 hy
  rw [List.append_assoc c] at hcd
  rw [← size_append] at hc
  obtain ⟨rfl, rfl⟩ : c = a ++ x ∧ y ++ d = b := by
    have hsplit := splitAt?_append (a ++ x) b
    rw [hcd, ← hc, splitAt?_append, Option.some.injEq, Prod.mk.injEq] at hsplit
    exact hsplit
  exact slice?_eq_some_iff.2 ⟨a, d, by simp, rfl, by simp [Nat.add_assoc]⟩

/-- The parts of a slice are slices. -/
theorem slice?_of_append {t x y : Text} {start stop : Nat}
    (h : t.slice? start stop = some (x ++ y)) :
    t.slice? start (start + x.size) = some x ∧ t.slice? (start + x.size) stop = some y := by
  obtain ⟨a, b, rfl, rfl, rfl⟩ := slice?_eq_some_iff.1 h
  exact ⟨slice?_eq_some_iff.2 ⟨a, y ++ b, by simp, rfl, rfl⟩,
    slice?_eq_some_iff.2 ⟨a ++ x, b, by simp, by simp, by simp [Nat.add_assoc]⟩⟩

/-- Slices that start at the same offset start with the same character. -/
theorem head?_of_slice? {t x y : Text} {start stop stop' : Nat} (hx : t.slice? start stop = some x)
    (hy : t.slice? start stop' = some y) (hxne : x ≠ []) (hyne : y ≠ []) : x.head? = y.head? := by
  obtain ⟨a, b, rfl, rfl, -⟩ := slice?_eq_some_iff.1 hx
  obtain ⟨c, d, hcd, hc, -⟩ := slice?_eq_some_iff.1 hy
  have hsplit := splitAt?_append a (x ++ b)
  rw [← List.append_assoc, hcd, List.append_assoc, ← hc, splitAt?_append, Option.some.injEq,
    Prod.mk.injEq] at hsplit
  obtain ⟨e, x, rfl⟩ := List.exists_cons_of_ne_nil hxne
  obtain ⟨f, y, rfl⟩ := List.exists_cons_of_ne_nil hyne
  exact congrArg some (List.cons.inj hsplit.2).1.symm

/-- A character that starts inside a slice is one of its characters. -/
theorem head_mem_of_slice? {t x y : Text} {start stop offset stop' : Nat} {c : Char}
    (hx : t.slice? start stop = some x) (hle : start ≤ offset) (hlt : offset < stop)
    (hy : t.slice? offset stop' = some y) (hc : y.head? = some c) : c ∈ x := by
  obtain ⟨hstart, hstop⟩ := isBoundary_of_slice? hx
  have hoffset := (isBoundary_of_slice? hy).1
  obtain ⟨u, hu⟩ := exists_slice?_of_isBoundary hstart hoffset hle
  obtain ⟨v, hv⟩ := exists_slice?_of_isBoundary hoffset hstop (Nat.le_of_lt hlt)
  have huv : x = u ++ v := Option.some.inj (hx.symm.trans (slice?_append hu hv))
  have hvne : v ≠ [] := by
    rintro rfl
    obtain ⟨a, b, -, -, hsize⟩ := slice?_eq_some_iff.1 hv
    simp only [size_nil] at hsize
    omega
  have hyne : y ≠ [] := by
    rintro rfl
    simp at hc
  rw [head?_of_slice? hy hv hyne hvne] at hc
  rw [huv]
  exact List.mem_append_right u (List.mem_of_mem_head? hc)

/-! ### Carriage returns -/

@[simp]
theorem withoutReturns_return (x : Text) : withoutReturns ('\r' :: x) = withoutReturns x := by
  simp [withoutReturns]

theorem withoutReturns_cons {c : Char} (h : c ≠ '\r') (x : Text) :
    withoutReturns (c :: x) = c :: withoutReturns x := by
  simp [withoutReturns, h]

theorem withoutReturns_of_not_mem {x : Text} (h : '\r' ∉ x) : x.withoutReturns = x := by
  simp only [withoutReturns, List.filter_eq_self, bne_iff_ne]
  rintro c hc rfl
  exact h hc

/-- A slice of a text without carriage returns has none. -/
theorem not_return_mem_of_slice? {t x : Text} {start stop : Nat} (hreturn : '\r' ∉ t)
    (h : t.slice? start stop = some x) : '\r' ∉ x := by
  obtain ⟨a, b, rfl, -⟩ := slice?_eq_some_iff.1 h
  simp only [List.mem_append, not_or] at hreturn
  exact hreturn.1.2

theorem size_withoutReturns_le (x : Text) : x.withoutReturns.size ≤ x.size := by
  induction x with
  | nil => exact Nat.le_refl 0
  | cons c x ih =>
    by_cases hc : c = '\r'
    · subst hc
      rw [withoutReturns_return, size_cons]
      omega
    · rw [withoutReturns_cons hc, size_cons, size_cons]
      omega

/-- A text of the size of its stored form has no carriage returns to leave out. -/
theorem withoutReturns_eq_self {x : Text} (h : x.withoutReturns.size = x.size) :
    x.withoutReturns = x := by
  induction x with
  | nil => rfl
  | cons c x ih =>
    by_cases hc : c = '\r'
    · subst hc
      have hle := size_withoutReturns_le x
      have hpos := Char.utf8Size_pos '\r'
      rw [withoutReturns_return, size_cons] at h
      omega
    · rw [withoutReturns_cons hc, size_cons, size_cons, Nat.add_left_cancel_iff] at h
      rw [withoutReturns_cons hc, ih h]

theorem size_withoutReturns_lt {x : Text} (h : '\r' ∈ x) : x.withoutReturns.size < x.size := by
  refine Nat.lt_of_le_of_ne (size_withoutReturns_le x) fun heq => ?_
  rw [← withoutReturns_eq_self heq] at h
  simp [withoutReturns] at h

/-! ### Blanks -/

/-- Texts whose characters only separate tokens. -/
def Blank (x : Text) : Prop :=
  ∀ c ∈ x, c.toNat ≤ 0x20

@[simp]
theorem blank_nil : Blank [] := by simp [Blank]

@[simp]
theorem blank_append {x y : Text} : Blank (x ++ y) ↔ Blank x ∧ Blank y := by
  simp only [Blank, List.mem_append, or_imp, forall_and]

theorem blank_cons {c : Char} {x : Text} : Blank (c :: x) ↔ c.toNat ≤ 0x20 ∧ Blank x := by
  simp [Blank]

/-- A text is blank when its bytes are. -/
theorem blank_iff_bytes {x : Text} : x.Blank ↔ ∀ b ∈ x.bytes, b ≤ 0x20 := by
  induction x with
  | nil => simp
  | cons c x ih =>
    rw [blank_cons, ih, bytes_cons, List.forall_mem_append]
    refine and_congr_left fun _ => ?_
    by_cases hc : c.toNat < 0x80
    · rw [utf8EncodeChar_of_lt hc, List.forall_mem_singleton, UInt8.le_iff_toNat_le,
        UInt8.toNat_ofNat']
      simp only [UInt8.reduceToNat]
      omega
    · constructor
      · intro h
        omega
      · intro h
        cases he : String.utf8EncodeChar c with
        | nil => exact absurd he String.utf8EncodeChar_ne_nil
        | cons b bs =>
          have hb : b ∈ String.utf8EncodeChar c := by simp [he]
          have hge := le_of_mem_utf8EncodeChar (Nat.not_lt.1 hc) hb
          have hle := UInt8.le_trans hge (h b hb)
          exact absurd hle (by decide)

/-- Only blanks stand between two offsets, which are in order and cut no character. -/
def BlankBetween (t : Text) (start stop : Nat) : Prop :=
  ∃ x, t.slice? start stop = some x ∧ x.Blank

theorem blankBetween_self {t : Text} {n : Nat} (h : t.IsBoundary n) : t.BlankBetween n n :=
  ⟨[], slice?_self h, blank_nil⟩

theorem BlankBetween.le {t : Text} {start stop : Nat} (h : t.BlankBetween start stop) :
    start ≤ stop := by
  obtain ⟨x, hx, -⟩ := h
  exact le_of_slice? hx

theorem BlankBetween.trans {t : Text} {start middle stop : Nat}
    (h : t.BlankBetween start middle) (h' : t.BlankBetween middle stop) :
    t.BlankBetween start stop := by
  obtain ⟨x, hx, bx⟩ := h
  obtain ⟨y, hy, hby⟩ := h'
  exact ⟨x ++ y, slice?_append hx hy, blank_append.2 ⟨bx, hby⟩⟩

/-- **Nothing else starts between two such offsets.** -/
theorem BlankBetween.blank_of_slice? {t x : Text} {start stop offset stop' : Nat} {c : Char}
    (h : t.BlankBetween start stop) (hle : start ≤ offset) (hlt : offset < stop)
    (hx : t.slice? offset stop' = some x) (hc : x.head? = some c) : c.toNat ≤ 0x20 := by
  obtain ⟨y, hy, hblank⟩ := h
  exact hblank c (head_mem_of_slice? hy hle hlt hx hc)

/-- Every byte between two such offsets is at most `0x20`. -/
theorem BlankBetween.le_of_mem_bytesIn {t : Text} {start stop : Nat}
    (h : t.BlankBetween start stop) {b : UInt8} (hb : b ∈ t.bytesIn start stop) : b ≤ 0x20 := by
  obtain ⟨x, hx, bx⟩ := h
  rw [bytesIn_of_slice? hx] at hb
  exact blank_iff_bytes.1 bx b hb

end GoTree.Text
