/-!
# Texts and byte offsets

A text is the list of its characters.  Everything outside the text speaks of it by **byte offsets**
into its UTF-8 encoding, so a text can be cut only at the offsets where a character begins or where
the text ends.

## Main definitions

* `Text`, `Text.size`, `Text.bytes`: a text, the length of its encoding, and the encoding itself
* `Text.splitAt?`: the two parts of a text at a byte offset
* `Text.slice?`: the characters between two byte offsets
* `Text.bytesIn`: the bytes between two byte offsets, whether or not characters begin there

## Main results

* `Text.splitAt?_eq_some_iff`, `Text.slice?_eq_some_iff`: what a successful cut returns
* `Text.length_bytes`: the encoding has `size` bytes
-/

namespace GoTree

/-- A text: its characters in order. -/
abbrev Text := List Char

/-- A byte offset into a text. -/
abbrev Offset := Nat

namespace Text

/-- The number of bytes of the encoding of a text. -/
def size : Text → Nat
  | [] => 0
  | c :: t => c.utf8Size + size t

/-- The UTF-8 encoding of a text. -/
def bytes (t : Text) : List UInt8 :=
  t.flatMap String.utf8EncodeChar

/-- **Cutting a text** at byte offset `n`: what stands before and what stands after, or `none` when
`n` lies past the end or inside a character. -/
def splitAt? : Text → Nat → Option (Text × Text)
  | t, 0 => some ([], t)
  | [], _ + 1 => none
  | c :: t, n + 1 =>
    if c.utf8Size ≤ n + 1 then
      (splitAt? t (n + 1 - c.utf8Size)).map fun parts => (c :: parts.1, parts.2)
    else none

/-- The characters between the byte offsets `start` and `stop`, or `none` when the offsets are out
of order or one of them is no place to cut. -/
def slice? (t : Text) (start stop : Nat) : Option Text :=
  if start ≤ stop then
    (t.splitAt? start).bind fun parts => (parts.2.splitAt? (stop - start)).map Prod.fst
  else none

/-- The bytes between the byte offsets `start` and `stop`, as far as the text has them. -/
def bytesIn (t : Text) (start stop : Nat) : List UInt8 :=
  (t.bytes.drop start).take (stop - start)

/-- Whether a character begins at byte offset `n`, or the text ends there. -/
def IsBoundary (t : Text) (n : Nat) : Prop :=
  (t.splitAt? n).isSome

instance (t : Text) (n : Nat) : Decidable (t.IsBoundary n) :=
  inferInstanceAs (Decidable ((t.splitAt? n).isSome = true))

/-- A text without its carriage returns. -/
def withoutReturns (t : Text) : Text :=
  t.filter (· != '\r')

/-! ### Size -/

@[simp]
theorem size_nil : size [] = 0 := rfl

@[simp]
theorem size_cons (c : Char) (t : Text) : size (c :: t) = c.utf8Size + size t := rfl

@[simp]
theorem size_append (s t : Text) : size (s ++ t) = size s + size t := by
  induction s with
  | nil => simp
  | cons c s ih => simp [ih, Nat.add_assoc]

theorem size_pos {t : Text} (h : t ≠ []) : 0 < size t := by
  cases t with
  | nil => exact absurd rfl h
  | cons c t =>
    have := c.utf8Size_pos
    simp only [size_cons]
    omega

@[simp]
theorem size_eq_zero {t : Text} : size t = 0 ↔ t = [] := by
  constructor
  · intro h
    apply Classical.byContradiction
    intro hne
    have := size_pos hne
    omega
  · rintro rfl
    rfl

/-- The encoding of a text has as many bytes as its size says. -/
theorem length_bytes (t : Text) : t.bytes.length = t.size := by
  induction t with
  | nil => rfl
  | cons c t ih =>
    simp only [bytes, List.flatMap_cons, List.length_append, size_cons] at ih ⊢
    rw [ih, String.length_utf8EncodeChar]

/-! ### Cutting -/

@[simp]
theorem splitAt?_zero (t : Text) : t.splitAt? 0 = some ([], t) := by
  cases t <;> rfl

/-- A cut after `s` gives back the two parts. -/
theorem splitAt?_append (s t : Text) : splitAt? (s ++ t) s.size = some (s, t) := by
  induction s with
  | nil => simp
  | cons c s ih =>
    have hc := c.utf8Size_pos
    obtain ⟨n, hn⟩ : ∃ n, c.utf8Size + size s = n + 1 := ⟨c.utf8Size + size s - 1, by omega⟩
    have hs : n + 1 - c.utf8Size = size s := by omega
    simp only [List.cons_append, size_cons, hn, splitAt?, hs, ih, Option.map_some]
    rw [if_pos (by omega)]

/-- **What a cut returns:** the two parts make up the text, and the first has `n` bytes. -/
theorem splitAt?_eq_some_iff {t a b : Text} {n : Nat} :
    t.splitAt? n = some (a, b) ↔ t = a ++ b ∧ a.size = n := by
  constructor
  · intro h
    induction t generalizing n a with
    | nil =>
      cases n with
      | zero => simp_all [splitAt?]
      | succ n => simp [splitAt?] at h
    | cons c t ih =>
      cases n with
      | zero => simp_all
      | succ n =>
        simp only [splitAt?] at h
        split at h
        · rename_i hle
          obtain ⟨⟨x, y⟩, hxy, heq⟩ := Option.map_eq_some_iff.1 h
          simp only [Prod.mk.injEq] at heq
          obtain ⟨rfl, rfl⟩ := heq
          obtain ⟨rfl, hsize⟩ := ih hxy
          refine ⟨rfl, ?_⟩
          simp only [size_cons]
          omega
        · simp at h
  · rintro ⟨rfl, rfl⟩
    exact splitAt?_append a b

/-- **What a slice is:** the characters after `start` bytes and before `stop` bytes. -/
theorem slice?_eq_some_iff {t m : Text} {start stop : Nat} :
    t.slice? start stop = some m ↔
      ∃ a b, t = a ++ m ++ b ∧ a.size = start ∧ start + m.size = stop := by
  unfold slice?
  constructor
  · intro h
    split at h
    · rename_i hle
      obtain ⟨⟨a, r⟩, har, h⟩ := Option.bind_eq_some_iff.1 h
      obtain ⟨⟨x, b⟩, hxb, rfl⟩ := Option.map_eq_some_iff.1 h
      obtain ⟨rfl, rfl⟩ := splitAt?_eq_some_iff.1 har
      obtain ⟨hr, hx⟩ := splitAt?_eq_some_iff.1 hxb
      simp only at hr
      subst hr
      exact ⟨a, b, by simp, rfl, by simp only; omega⟩
    · simp at h
  · rintro ⟨a, b, rfl, rfl, rfl⟩
    rw [if_pos (by omega), List.append_assoc, splitAt?_append]
    have : a.size + m.size - a.size = m.size := by omega
    simp [this, splitAt?_append]

/-- Cutting never goes past the end. -/
theorem le_size_of_isBoundary {t : Text} {n : Nat} (h : t.IsBoundary n) : n ≤ t.size := by
  obtain ⟨⟨a, b⟩, hab⟩ := Option.isSome_iff_exists.1 h
  obtain ⟨rfl, rfl⟩ := splitAt?_eq_some_iff.1 hab
  simp

theorem isBoundary_zero (t : Text) : t.IsBoundary 0 := by
  simp [IsBoundary]

theorem isBoundary_size (t : Text) : t.IsBoundary t.size := by
  have := splitAt?_append t []
  simp_all [IsBoundary]

end Text

end GoTree
