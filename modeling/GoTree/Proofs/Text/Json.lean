import Mathlib.Data.List.Basic
import Mathlib.Tactic.Common
import GoTree.Text.Json

/-!
# JSON texts determine their values

No value is lost in its text.  A text is followed by other text wherever a value stands inside
another, so the induction is over texts with a rest: the written value and the rest are both read
off the whole, as long as neither rest goes on with a digit.

## Main definitions

* `Parted`: a rest that no number runs into
* `ReadOff`: a value that is read off the front of a text

## Main results

* `Json.readOff_number`, `Json.readOff_quote`: numbers and quoted strings
* `Json.readOff_enclose`: entries between brackets, if each of them is read off
* `Json.readOff`: every value
* `Json.pretty_injective`: two values with one text are the same
-/

namespace GoTree

/-- A rest that no number runs into: it does not start with a digit. -/
def Parted (rest : List Char) : Prop :=
  ∀ c ∈ rest.head?, c.isDigit = false

@[simp]
theorem parted_nil : Parted [] := by simp [Parted]

@[simp]
theorem parted_cons (c : Char) (rest : List Char) : Parted (c :: rest) ↔ c.isDigit = false := by
  simp [Parted]

/-- **A value that is read off the front of a text**: whatever value's text starts the same way, it
is this value, and the rests are the same. -/
def ReadOff {α : Type} (write : α → List Char) (a : α) : Prop :=
  ∀ b r s, Parted r → Parted s → write a ++ r = write b ++ s → a = b ∧ r = s

theorem ReadOff.eq {α : Type} {write : α → List Char} {a b : α} (h : ReadOff write a)
    (heq : write a = write b) : a = b :=
  (h b [] [] parted_nil parted_nil (by rw [heq])).1

namespace Json

/-! ## Numbers -/

section Numbers

variable {m n : Nat} {r s : List Char}

theorem toList_toString (n : Nat) : (toString n).toList = Nat.toDigits 10 n := by
  rw [Nat.toString_eq_repr, Nat.toList_repr]

theorem takeWhile_number (hr : Parted r) :
    ((toString n).toList ++ r).takeWhile Char.isDigit = (toString n).toList := by
  have hdigits : ∀ c ∈ (toString n).toList, c.isDigit = true := fun c hc =>
    Nat.isDigit_of_mem_toDigits (by decide) (by decide) (toList_toString n ▸ hc)
  rw [List.takeWhile_append_of_pos hdigits]
  cases r with
  | nil => simp
  | cons c r =>
    have hc : c.isDigit = false := (parted_cons c r).1 hr
    simp [hc]

/-- **A number is read off a text**: it is the longest stretch of digits. -/
theorem readOff_number (n : Nat) : ReadOff (fun n : Nat => (toString n).toList) n := by
  intro m r s hr hs heq
  have hdigits : (toString n).toList = (toString m).toList := by
    rw [← takeWhile_number hr, ← takeWhile_number (n := m) hs]
    exact congrArg (List.takeWhile Char.isDigit) heq
  refine ⟨?_, ?_⟩
  · rw [toList_toString, toList_toString] at hdigits
    calc
      n = Nat.ofDigitChars 10 (Nat.toDigits 10 n) 0 := Nat.ofDigitChars_ten_toDigits.symm
      _ = Nat.ofDigitChars 10 (Nat.toDigits 10 m) 0 := by rw [hdigits]
      _ = m := Nat.ofDigitChars_ten_toDigits
  · simp only [hdigits, List.append_cancel_left_eq] at heq
    exact heq

theorem head_number (n : Nat) : ∃ c rest, (toString n).toList = c :: rest ∧ c.isDigit = true := by
  obtain ⟨c, rest, hcons⟩ : ∃ c rest, (toString n).toList = c :: rest := by
    rw [toList_toString]
    exact List.exists_cons_of_ne_nil Nat.toDigits_ne_nil
  have hmem : c ∈ Nat.toDigits 10 n := by
    rw [← toList_toString, hcons]
    exact List.mem_cons_self
  exact ⟨c, rest, hcons, Nat.isDigit_of_mem_toDigits (by decide) (by decide) hmem⟩

end Numbers

/-! ## Quoted strings -/

section Quotes

/-- The characters that do not stand for themselves between double quotes. -/
def escaped : List Char :=
  '\x22' :: '\\' :: (List.range 0x20).map Char.ofNat

theorem mem_escaped_of_toNat_lt {c : Char} (h : c.toNat < 0x20) : c ∈ escaped := by
  refine List.mem_cons_of_mem _ (List.mem_cons_of_mem _ (List.mem_map.2 ?_))
  exact ⟨c.toNat, List.mem_range.2 h, Char.ofNat_toNat c⟩

theorem escape_of_notMem {c : Char} (h : c ∉ escaped) : escape c = [c] := by
  have hnone : ∀ d ∈ escaped, c ≠ d := fun d hd heq => h (heq ▸ hd)
  have hlow : ¬ c.toNat < 0x20 := fun hlow => h (mem_escaped_of_toNat_lt hlow)
  unfold escape
  rw [if_neg (hnone _ (by decide)), if_neg (hnone _ (by decide)), if_neg (hnone _ (by decide)),
    if_neg (hnone _ (by decide)), if_neg (hnone _ (by decide)), if_neg (hnone _ (by decide)),
    if_neg (hnone _ (by decide)), if_neg hlow]

/-- No escape is the start of another. -/
theorem eq_of_escape_append {c d : Char} (hc : c ∈ escaped) (hd : d ∈ escaped)
    (h : escape c <+: escape d) : c = d := by
  have hall : escaped.all (fun c => escaped.all fun d => escape c <+: escape d → c = d) = true := by
    decide +kernel
  have hrow := List.all_eq_true.1 hall c hc
  exact of_decide_eq_true (List.all_eq_true.1 hrow d hd) h

theorem head_escape_of_mem {c : Char} (hc : c ∈ escaped) : (escape c).head? = some '\\' := by
  have hall : escaped.all (fun c => (escape c).head? = some '\\') = true := by decide +kernel
  exact of_decide_eq_true (List.all_eq_true.1 hall c hc)

theorem head_escape (c : Char) : ∃ rest, escape c = c :: rest ∧ c ∉ escaped ∨
    escape c = '\\' :: rest ∧ c ∈ escaped := by
  by_cases hc : c ∈ escaped
  · obtain ⟨rest, hrest⟩ := List.head?_eq_some_iff.1 (head_escape_of_mem hc)
    exact ⟨rest, .inr ⟨hrest, hc⟩⟩
  · exact ⟨[], .inl ⟨escape_of_notMem hc, hc⟩⟩

/-- **A character is read off an escaped text.** -/
theorem escape_append_inj {c d : Char} {r s : List Char} (h : escape c ++ r = escape d ++ s) :
    c = d ∧ r = s := by
  suffices hcd : c = d by
    subst hcd
    exact ⟨rfl, List.append_cancel_left h⟩
  obtain ⟨x, ⟨hx, hc⟩ | ⟨hx, hc⟩⟩ := head_escape c <;>
    obtain ⟨y, ⟨hy, hd⟩ | ⟨hy, hd⟩⟩ := head_escape d
  · rw [hx, hy] at h
    exact (List.cons.inj h).1
  · rw [hx, hy] at h
    exact absurd ((List.cons.inj h).1 ▸ (by decide : '\\' ∈ escaped)) hc
  · rw [hx, hy] at h
    exact absurd ((List.cons.inj h).1 ▸ (by decide : '\\' ∈ escaped)) hd
  · rcases List.prefix_or_prefix_of_prefix (h ▸ List.prefix_append _ r) (List.prefix_append _ s)
      with hpre | hpre
    · exact eq_of_escape_append hc hd hpre
    · exact (eq_of_escape_append hd hc hpre).symm

theorem escape_ne_quote (c : Char) (r s : List Char) : escape c ++ r ≠ '\x22' :: s := by
  intro h
  obtain ⟨x, ⟨hx, hc⟩ | ⟨hx, hc⟩⟩ := head_escape c
  · rw [hx] at h
    exact hc ((List.cons.inj h).1 ▸ (by decide : '\x22' ∈ escaped))
  · rw [hx] at h
    exact absurd (List.cons.inj h).1 (by decide)

theorem flatMap_escape_inj : ∀ {t u r s : List Char},
    t.flatMap escape ++ '\x22' :: r = u.flatMap escape ++ '\x22' :: s → t = u ∧ r = s
  | [], [], _, _, h => ⟨rfl, (List.cons.inj h).2⟩
  | [], d :: u, r, s, h => by
    rw [List.flatMap_cons, List.append_assoc] at h
    exact absurd h.symm (escape_ne_quote d _ _)
  | c :: t, [], r, s, h => by
    rw [List.flatMap_cons, List.append_assoc] at h
    exact absurd h (escape_ne_quote c _ _)
  | c :: t, d :: u, r, s, h => by
    rw [List.flatMap_cons, List.flatMap_cons, List.append_assoc, List.append_assoc] at h
    obtain ⟨rfl, hrest⟩ := escape_append_inj h
    obtain ⟨rfl, rfl⟩ := flatMap_escape_inj hrest
    exact ⟨rfl, rfl⟩

theorem toList_quote (t : String) :
    (quote t).toList = '\x22' :: (t.toList.flatMap escape ++ ['\x22']) := by
  simp [quote]

/-- **A quoted string is read off a text.** -/
theorem readOff_quote (t : String) : ReadOff (fun t : String => (quote t).toList) t := by
  intro u r s _ _ heq
  simp only [toList_quote, List.cons_append, List.append_assoc, List.cons.injEq, true_and,
    List.nil_append] at heq
  obtain ⟨htext, hrest⟩ := flatMap_escape_inj heq
  exact ⟨String.toList_injective htext, hrest⟩

end Quotes

/-! ## Entries between brackets -/

section Enclose

variable {depth : Nat} {opening closing : String}

/-- What follows an entry between brackets: the further entries, each behind a comma, and the
closing text. -/
def continued (depth : Nat) (closing : String) : List String → List Char
  | [] => '\n' :: ((margin depth).toList ++ closing.toList)
  | entry :: rest =>
    ',' :: '\n' :: ((margin (depth + 1)).toList ++ (entry.toList ++ continued depth closing rest))

theorem toList_intercalate_continued (depth : Nat) (closing entry : String) (rest : List String) :
    (",\n".intercalate ((entry :: rest).map (margin (depth + 1) ++ ·))).toList
        ++ '\n' :: ((margin depth).toList ++ closing.toList) =
      (margin (depth + 1)).toList ++ (entry.toList ++ continued depth closing rest) := by
  induction rest generalizing entry with
  | nil => simp [continued]
  | cons next rest ih =>
    rw [List.map_cons, List.map_cons, String.intercalate_cons_cons, ← List.map_cons,
      String.toList_append, String.toList_append, List.append_assoc, ih next]
    simp [continued]

theorem toList_enclose_nil :
    (enclose depth opening closing []).toList = opening.toList ++ closing.toList := by
  simp [enclose]

theorem toList_enclose_cons (entry : String) (rest : List String) :
    (enclose depth opening closing (entry :: rest)).toList =
      opening.toList ++ '\n' :: ((margin (depth + 1)).toList
        ++ (entry.toList ++ continued depth closing rest)) := by
  rw [← toList_intercalate_continued depth closing]
  simp [enclose, List.append_assoc]

variable {α : Type} {write : α → String}

theorem parted_continued (entries : List String) (r : List Char) :
    Parted (continued depth closing entries ++ r) := by
  cases entries <;> simp [continued]

theorem readOff_continued {xs : List α} (h : ∀ x ∈ xs, ReadOff (fun x => (write x).toList) x) :
    ReadOff (fun xs => continued depth closing (xs.map write)) xs := by
  induction xs with
  | nil =>
    rintro (_ | ⟨y, ys⟩) r s hr hs heq
    · exact ⟨rfl, List.append_cancel_left heq⟩
    · simp [continued] at heq
  | cons x xs ih =>
    rintro (_ | ⟨y, ys⟩) r s hr hs heq
    · simp [continued] at heq
    · simp only [List.map_cons, continued, List.cons_append, List.cons.injEq, true_and,
        List.append_assoc, List.append_cancel_left_eq] at heq
      obtain ⟨rfl, hrest⟩ := h x (by simp) y _ _ (parted_continued _ r) (parted_continued _ s) heq
      obtain ⟨rfl, rfl⟩ := ih (fun x hx => h x (by simp [hx])) ys r s hr hs hrest
      exact ⟨rfl, rfl⟩

/-- **The entries between brackets are read off a text** if each of them is.  The closing text tells
an empty list from one that starts a new line. -/
theorem readOff_enclose {c : Char} (hclosing : closing.toList = [c]) (hc : c ≠ '\n') {xs : List α}
    (h : ∀ x ∈ xs, ReadOff (fun x => (write x).toList) x) :
    ReadOff (fun xs => (enclose depth opening closing (xs.map write)).toList) xs := by
  cases xs with
  | nil =>
    rintro (_ | ⟨y, ys⟩) r s hr hs heq
    · exact ⟨rfl, List.append_cancel_left heq⟩
    · simp [toList_enclose_nil, toList_enclose_cons, hclosing, hc] at heq
  | cons x xs =>
    rintro (_ | ⟨y, ys⟩) r s hr hs heq
    · simp [toList_enclose_nil, toList_enclose_cons, hclosing, hc.symm] at heq
    · simp only [List.map_cons, toList_enclose_cons, List.append_assoc, List.cons_append,
        List.append_cancel_left_eq, List.cons.injEq, true_and] at heq
      obtain ⟨rfl, hrest⟩ := h x (by simp) y _ _ (parted_continued _ r) (parted_continued _ s) heq
      obtain ⟨rfl, rfl⟩ := readOff_continued (fun x hx => h x (by simp [hx])) ys r s hr hs hrest
      exact ⟨rfl, rfl⟩

end Enclose

/-! ## Values -/

theorem prettyItems_eq_map (depth : Nat) (items : List Json) :
    prettyItems depth items = items.map (prettyAt (depth + 1)) := by
  induction items with
  | nil => rfl
  | cons item rest ih => rw [prettyItems, ih, List.map_cons]

theorem prettyFields_eq_map (depth : Nat) (fields : List JsonField) :
    prettyFields depth fields = fields.map (prettyField depth) := by
  induction fields with
  | nil => rfl
  | cons field rest ih => rw [prettyFields, ih, List.map_cons]

/-- Which sort of value starts with a character. -/
def sortOf (c : Char) : Nat :=
  if c = '\x22' then 0 else if c = '[' then 2 else if c = '\x7b' then 3 else 1

/-- The sort of a value. -/
def sort : Json → Nat
  | .string _ => 0
  | .number _ => 1
  | .array _ => 2
  | .object _ => 3

theorem head_enclose (depth : Nat) (opening closing : String) (entries : List String) :
    ∃ rest, (enclose depth opening closing entries).toList = opening.toList ++ rest := by
  cases entries with
  | nil => exact ⟨_, toList_enclose_nil⟩
  | cons entry rest => exact ⟨_, toList_enclose_cons entry rest⟩

/-- **The first character tells the sort of a value.** -/
theorem head_prettyAt (depth : Nat) (value : Json) :
    ∃ c rest, (value.prettyAt depth).toList = c :: rest ∧ sortOf c = value.sort := by
  cases value with
  | string t => exact ⟨_, _, toList_quote t, rfl⟩
  | number n =>
    obtain ⟨c, rest, hcons, hc⟩ := head_number n
    have hne : ∀ d : Char, d.isDigit = false → c ≠ d := fun d hd heq => by simp [heq, hd] at hc
    refine ⟨c, rest, hcons, ?_⟩
    rw [sortOf, if_neg (hne _ (by decide)), if_neg (hne _ (by decide)), if_neg (hne _ (by decide)),
      sort]
  | array items =>
    obtain ⟨rest, hrest⟩ := head_enclose depth "[" "]" (prettyItems depth items)
    exact ⟨'[', rest, hrest, rfl⟩
  | object fields =>
    obtain ⟨rest, hrest⟩ := head_enclose depth "\x7b" "\x7d" (prettyFields depth fields)
    exact ⟨'\x7b', rest, hrest, rfl⟩

theorem sort_eq_of_append {depth : Nat} {a b : Json} {r s : List Char}
    (h : (a.prettyAt depth).toList ++ r = (b.prettyAt depth).toList ++ s) : a.sort = b.sort := by
  obtain ⟨c, x, hx, hc⟩ := head_prettyAt depth a
  obtain ⟨d, y, hy, hd⟩ := head_prettyAt depth b
  rw [hx, hy] at h
  rw [← hc, ← hd, (List.cons.inj h).1]

mutual

/-- **Every value is read off its text**, by induction on the value. -/
theorem readOff (depth : Nat) :
    (value : Json) → ReadOff (fun value => (value.prettyAt depth).toList) value
  | .string t => by
    -- the first character tells the sort of a value, and the rest its contents
    intro b r s hr hs heq
    have hsort := sort_eq_of_append heq
    cases b with
    | string u =>
      obtain ⟨rfl, hrest⟩ := readOff_quote t u r s hr hs heq
      exact ⟨rfl, hrest⟩
    | _ => simp [sort] at hsort
  | .number n => by
    intro b r s hr hs heq
    have hsort := sort_eq_of_append heq
    cases b with
    | number m =>
      obtain ⟨rfl, hrest⟩ := readOff_number n m r s hr hs heq
      exact ⟨rfl, hrest⟩
    | _ => simp [sort] at hsort
  | .array items => by
    intro b r s hr hs heq
    have hsort := sort_eq_of_append heq
    cases b with
    | array others =>
      simp only [prettyAt, prettyItems_eq_map] at heq
      obtain ⟨rfl, hrest⟩ := readOff_enclose (by rfl : "]".toList = [']']) (by decide)
        (readOff_items depth items) others r s hr hs heq
      exact ⟨rfl, hrest⟩
    | _ => simp [sort] at hsort
  | .object fields => by
    intro b r s hr hs heq
    have hsort := sort_eq_of_append heq
    cases b with
    | object others =>
      simp only [prettyAt, prettyFields_eq_map] at heq
      obtain ⟨rfl, hrest⟩ := readOff_enclose (by rfl : "\x7d".toList = ['\x7d']) (by decide)
        (readOff_fields depth fields) others r s hr hs heq
      exact ⟨rfl, hrest⟩
    | _ => simp [sort] at hsort

theorem readOff_items (depth : Nat) : (items : List Json) →
    ∀ item ∈ items, ReadOff (fun item => (item.prettyAt (depth + 1)).toList) item
  | [] => by simp
  | item :: rest => List.forall_mem_cons.2 ⟨readOff (depth + 1) item, readOff_items depth rest⟩

theorem readOff_fields (depth : Nat) : (fields : List JsonField) →
    ∀ field ∈ fields, ReadOff (fun field => (prettyField depth field).toList) field
  | [] => by simp
  | field :: rest => List.forall_mem_cons.2 ⟨readOff_field depth field, readOff_fields depth rest⟩

theorem readOff_field (depth : Nat) :
    (field : JsonField) → ReadOff (fun field => (prettyField depth field).toList) field
  | ⟨name, value⟩ => by
    rintro ⟨name', value'⟩ r s hr hs heq
    simp only [prettyField, String.toList_append, List.append_assoc] at heq
    obtain ⟨rfl, hrest⟩ := readOff_quote name name' _ _ (by simp) (by simp) heq
    obtain ⟨rfl, rfl⟩ := readOff (depth + 1) value value' r s hr hs (List.append_cancel_left hrest)
    exact ⟨rfl, rfl⟩

end

/-- **Two values with one text are the same.** -/
theorem pretty_injective : Function.Injective pretty := fun a _ h =>
  (readOff 0 a).eq (congrArg String.toList h)

end Json

end GoTree
