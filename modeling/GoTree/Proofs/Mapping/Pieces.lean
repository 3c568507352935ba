import GoTree.Proofs.Mapping.Between

/-!
# How a gap is divided

What stands in a gap is said here without the scan that finds it: `ReadsAs` divides bytes into
implied tokens with blanks around them.  Implied tokens start with different bytes and hold no
blank, so bytes can be divided in at most one way, and the scan finds that way if there is one.  If
there is none, the scan gets as far as any reading of a front of the bytes gets, and leaves one token
over all that follows.

## Main definitions

* `GapPiece.start`, `GapPiece.stop`, `GapPiece.IsImplied`: the bytes and the kind of a token
* `ReadsAs`: bytes as implied tokens and blanks
* `Unread`: bytes that start no implied token and have no blank at their ends

## Main results

* `ReadsAs.piecesFrom_eq`: a reading is what the scan finds
* `ReadsAs.prefix_piecesFrom`: the scan gets at least as far as a reading of a front
* `gapPieces_cases`: the tokens of a gap are a reading, or a reading and one token over the rest
* `gapPieces_division`: both, with the bytes of the tokens and the error a strict mapping stops with
-/

namespace GoTree

namespace GapPiece

/-- The offset of the first byte of a token. -/
def start : GapPiece → Nat
  | .implied _ start _ => start
  | .unaccounted start _ => start

/-- The offset behind the last byte of a token. -/
def stop : GapPiece → Nat
  | .implied _ _ stop => stop
  | .unaccounted _ stop => stop

/-- Whether a token is one of the words a gap may hold. -/
def IsImplied : GapPiece → Prop
  | .implied _ _ _ => True
  | .unaccounted _ _ => False

end GapPiece

/-! ### Readings -/

/-- **Bytes read as implied tokens**, with blanks before, between and behind them.  The first byte
stands at `offset`. -/
inductive ReadsAs : (offset : Nat) → List UInt8 → List GapPiece → Prop where
  | blanks {offset : Nat} {blanks : List UInt8} (hblanks : ∀ b ∈ blanks, isSpaceByte b = true) :
      ReadsAs offset blanks []
  | word {offset : Nat} {blanks rest : List UInt8} {word : String} {pieces : List GapPiece}
      (hblanks : ∀ b ∈ blanks, isSpaceByte b = true) (hword : word ∈ impliedWords)
      (hrest : ReadsAs (offset + blanks.length + (wordBytes word).length) rest pieces) :
      ReadsAs offset (blanks ++ (wordBytes word ++ rest))
        (.implied word (offset + blanks.length)
          (offset + blanks.length + (wordBytes word).length) :: pieces)

/-- **Bytes at which reading stops:** no implied token stands at their front, and no blank at either
end. -/
structure Unread (bs : List UInt8) : Prop where
  first : ∃ b, bs.head? = some b ∧ isSpaceByte b = false
  last : ∃ b, bs.getLast? = some b ∧ isSpaceByte b = false
  unmatched : ∀ word ∈ impliedWords, ¬ wordBytes word <+: bs

namespace ReadsAs

variable {offset : Nat} {bs : List UInt8} {pieces : List GapPiece}

/-- **A reading is what the scan finds,** so bytes are read in at most one way. -/
theorem piecesFrom_eq (h : ReadsAs offset bs pieces) {n : Nat} (hn : (trimEnd bs).length ≤ n) :
    piecesFrom n offset (trimEnd bs) = pieces := by
  induction h generalizing n with
  | blanks hblanks => rw [trimEnd_of_blank hblanks, Mapping.piecesFrom_nil]
  | @word offset blanks rest word pieces hblanks hword _ ih =>
    have hpos := List.length_pos_iff.2 (wordBytes_of_mem hword).1
    rw [trimEnd_word hword] at hn ⊢
    simp only [List.length_append] at hn
    -- the word has a byte, so the scan may go one step further
    obtain ⟨n, rfl⟩ : ∃ k, n = k + 1 := Nat.exists_eq_add_one.2 (by omega)
    rw [piecesFrom_word hblanks hword, ih (by omega)]

/-- **The scan gets at least as far as a reading of a front** of the bytes. -/
theorem prefix_piecesFrom (h : ReadsAs offset bs pieces) (back : List UInt8) {n : Nat}
    (hn : (trimEnd (bs ++ back)).length ≤ n) :
    pieces <+: piecesFrom n offset (trimEnd (bs ++ back)) := by
  induction h generalizing n with
  | blanks hblanks => exact List.nil_prefix
  | @word offset blanks rest word pieces hblanks hword _ ih =>
    have hpos := List.length_pos_iff.2 (wordBytes_of_mem hword).1
    rw [List.append_assoc, List.append_assoc, trimEnd_word hword] at hn ⊢
    simp only [List.length_append] at hn
    obtain ⟨n, rfl⟩ : ∃ k, n = k + 1 := Nat.exists_eq_add_one.2 (by omega)
    rw [piecesFrom_word hblanks hword]
    exact (List.prefix_cons_inj _).2 (ih (by omega))

/-- Blanks behind what is read are read too. -/
theorem append_blanks (h : ReadsAs offset bs pieces) {spaces : List UInt8}
    (hspaces : ∀ b ∈ spaces, isSpaceByte b = true) : ReadsAs offset (bs ++ spaces) pieces := by
  induction h with
  | blanks hblanks =>
    apply ReadsAs.blanks
    rw [List.forall_mem_append]
    exact ⟨hblanks, hspaces⟩
  | word hblanks hword _ ih =>
    rw [List.append_assoc, List.append_assoc]
    exact .word hblanks hword ih

/-- What is read are implied tokens. -/
theorem isImplied (h : ReadsAs offset bs pieces) : ∀ piece ∈ pieces, piece.IsImplied := by
  induction h with
  | blanks => simp
  | word _ _ _ ih => exact List.forall_mem_cons.2 ⟨trivial, ih⟩

/-- The bytes of a reading are below `0x80`. -/
theorem lt (h : ReadsAs offset bs pieces) : ∀ b ∈ bs, b < 0x80 := by
  induction h with
  | blanks hblanks => exact fun b hb => lt_of_isSpaceByte (hblanks b hb)
  | word hblanks hword _ ih =>
    rw [List.forall_mem_append, List.forall_mem_append]
    exact ⟨fun b hb => lt_of_isSpaceByte (hblanks b hb),
      fun b hb => ((wordBytes_of_mem hword).2 b hb).1, ih⟩

/-- Every token read has bytes, all of them among the bytes that are read. -/
theorem bounds (h : ReadsAs offset bs pieces) : ∀ piece ∈ pieces,
    offset ≤ piece.start ∧ piece.start < piece.stop ∧ piece.stop ≤ offset + bs.length := by
  induction h with
  | blanks => simp
  | @word offset blanks rest word pieces hblanks hword _ ih =>
    have hpos := List.length_pos_iff.2 (wordBytes_of_mem hword).1
    simp only [List.length_append]
    rw [List.forall_mem_cons]
    constructor
    · simp only [GapPiece.start, GapPiece.stop]
      omega
    · intro piece hpiece
      obtain ⟨hstart, hlt, hstop⟩ := ih piece hpiece
      omega

/-- The tokens read stand one behind the other. -/
theorem pairwise (h : ReadsAs offset bs pieces) :
    pieces.Pairwise fun a b => a.stop ≤ b.start := by
  induction h with
  | blanks => exact List.Pairwise.nil
  | word hblanks hword hrest ih =>
    rw [List.pairwise_cons]
    refine ⟨?_, ih⟩
    intro piece hpiece
    exact (hrest.bounds piece hpiece).1

/-- **A byte that is in no token is a blank.** -/
theorem isSpaceByte_of_outside (h : ReadsAs offset bs pieces) {i : Nat} {b : UInt8}
    (hb : bs[i]? = some b)
    (houtside : ∀ piece ∈ pieces, offset + i < piece.start ∨ piece.stop ≤ offset + i) :
    isSpaceByte b = true := by
  induction h generalizing i with
  | blanks hblanks => exact hblanks b (List.mem_of_getElem? hb)
  | @word offset blanks rest word pieces hblanks hword _ ih =>
    rw [List.forall_mem_cons] at houtside
    obtain ⟨hfirst, hothers⟩ := houtside
    simp only [GapPiece.start, GapPiece.stop] at hfirst
    -- the byte stands among the blanks before the word, or behind the word
    rcases hfirst with hbefore | hbehind
    · rw [List.getElem?_append_left (by omega)] at hb
      exact hblanks b (List.mem_of_getElem? hb)
    · rw [List.getElem?_append_right (by omega), List.getElem?_append_right (by omega)] at hb
      refine ih hb ?_
      intro piece hpiece
      have hcases := hothers piece hpiece
      omega

/-- **Every token read stands in the text** as one of the words, between two boundaries. -/
theorem slice? (h : ReadsAs offset bs pieces) {t : Text} {front back : List UInt8}
    (ht : t.bytes = front ++ (bs ++ back)) (hoffset : front.length = offset) :
    ∀ piece ∈ pieces, ∃ word ∈ impliedWords,
      piece = .implied word piece.start piece.stop ∧
        t.slice? piece.start piece.stop = some word.toList := by
  induction h generalizing front with
  | blanks => simp
  | @word offset blanks rest word pieces hblanks hword _ ih =>
    obtain ⟨hne, hbytes⟩ := wordBytes_of_mem hword
    rw [List.forall_mem_cons]
    constructor
    · refine ⟨word, hword, rfl, ?_⟩
      have hsplit : t.bytes = (front ++ blanks) ++ (wordBytes word ++ (rest ++ back)) := by
        simpa using ht
      have hhead : ∀ b ∈ (wordBytes word ++ (rest ++ back)).head?, b < 0x80 := by
        intro b hb
        rw [List.head?_append_of_ne_nil _ hne] at hb
        exact (hbytes b (List.mem_of_mem_head? hb)).1
      -- the bytes of a word are characters, so the text is cut on both sides of it
      obtain ⟨x, y, rfl, hx, hy⟩ := Text.exists_append_of_bytes_head hsplit hhead
      obtain ⟨w, z, rfl, hw, -⟩ :=
        Text.exists_append_of_bytes_left hy fun b hb => (hbytes b hb).1
      have hword : w = word.toList := Text.eq_of_bytes_eq hw
      have hxsize : x.size = offset + blanks.length := by
        rw [← Text.length_bytes, hx, List.length_append, hoffset]
      have hwsize : w.size = (wordBytes word).length := by rw [← Text.length_bytes, hw]
      rw [← hword]
      refine Text.slice?_eq_some_iff.2 ⟨x, z, (List.append_assoc ..).symm, hxsize, ?_⟩
      rw [hwsize]
      rfl
    · have hsplit : t.bytes = (front ++ (blanks ++ wordBytes word)) ++ (rest ++ back) := by
        simpa using ht
      apply ih hsplit
      rw [List.length_append, List.length_append, hoffset, Nat.add_assoc]

end ReadsAs

/-! ### The tokens of a gap -/

/-- The last byte that is kept is no blank. -/
theorem isSpaceByte_of_getLast?_trimEnd {bs : List UInt8} :
    ∀ b ∈ (trimEnd bs).getLast?, isSpaceByte b = false := by
  intro b hb
  rw [trimEnd, List.getLast?_reverse] at hb
  have hnot := List.head?_dropWhile_not isSpaceByte bs.reverse
  rw [Option.mem_def.1 hb] at hnot
  simpa using hnot

/-- **What the scan finds** is a reading of all bytes, or a reading of a front of them and one token
over the rest. -/
theorem piecesFrom_cases {n : Nat} (offset : Nat) {bs : List UInt8} (hn : bs.length ≤ n)
    (hlast : ∀ b ∈ bs.getLast?, isSpaceByte b = false) :
    ReadsAs offset bs (piecesFrom n offset bs) ∨
      ∃ words front rest, bs = front ++ rest ∧ ReadsAs offset front words ∧ Unread rest ∧
        piecesFrom n offset bs =
          words ++
            [.unaccounted (offset + front.length) (offset + front.length + rest.length)] := by
  -- induction on the number of steps, each of which reads a word
  induction n generalizing offset bs with
  | zero =>
    obtain rfl : bs = [] := List.length_eq_zero_iff.1 (Nat.le_zero.1 hn)
    exact .inl (.blanks (by simp))
  | succ n ih =>
    obtain ⟨u, r, rfl, hu, hr⟩ := exists_spaces_append bs
    cases hword : impliedPrefix? r with
    | some word =>
      obtain ⟨hmem, rest, rfl⟩ := impliedPrefix?_eq_some_iff.1 hword
      have hpos := List.length_pos_iff.2 (wordBytes_of_mem hmem).1
      simp only [List.length_append] at hn
      rw [piecesFrom_word hu hmem]
      have hlastRest : ∀ b ∈ rest.getLast?, isSpaceByte b = false := by
        intro b hb
        apply hlast
        rw [← List.append_assoc, List.getLast?_append, Option.mem_def.1 hb]
        rfl
      have hshort : rest.length ≤ n := by omega
      rcases ih _ hshort hlastRest with
        hread | ⟨words, front, unread, rfl, hread, hunread, hpieces⟩
      · exact .inl (.word hu hmem hread)
      · refine .inr ⟨_, u ++ (wordBytes word ++ front), unread, by simp, .word hu hmem hread,
          hunread, ?_⟩
        rw [hpieces]
        simp only [List.length_append, List.cons_append, Nat.add_assoc]
    | none =>
      -- no word stands behind the blanks, so the scan stops there
      rw [piecesFrom_blank_append hu hr, hword]
      cases r with
      | nil => exact .inl (.blanks (by simpa using hu))
      | cons b r =>
        obtain ⟨c, hc⟩ : ∃ c, (b :: r).getLast? = some c :=
          Option.isSome_iff_exists.1 (by simp)
        refine .inr ⟨[], u, b :: r, rfl, .blanks hu, ⟨⟨b, rfl, hr b rfl⟩, ⟨c, hc, ?_⟩, ?_⟩, rfl⟩
        · apply hlast
          rw [List.getLast?_append, hc]
          rfl
        · exact impliedPrefix?_eq_none_iff.1 hword

/-- **The tokens of a gap** are a reading of its bytes, or a reading of a front of them and one
token that ends with the last byte that is no blank. -/
theorem gapPieces_cases (t : Text) (offset stop : Nat) :
    ReadsAs offset (t.bytesIn offset stop) (gapPieces t offset stop) ∨
      ∃ words front rest blanks, t.bytesIn offset stop = front ++ (rest ++ blanks) ∧
        ReadsAs offset front words ∧ Unread rest ∧ (∀ b ∈ blanks, isSpaceByte b = true) ∧
        gapPieces t offset stop =
          words ++
            [.unaccounted (offset + front.length) (offset + front.length + rest.length)] := by
  obtain ⟨blanks, hbytes, hblanks⟩ := exists_trimEnd_append (t.bytesIn offset stop)
  rcases piecesFrom_cases offset (Nat.le_refl (trimEnd (t.bytesIn offset stop)).length)
      isSpaceByte_of_getLast?_trimEnd with
    hread | ⟨words, front, rest, hsplit, hread, hunread, hpieces⟩
  · left
    have happend := hread.append_blanks hblanks
    rwa [← hbytes] at happend
  · right
    refine ⟨words, front, rest, blanks, ?_, hread, hunread, hblanks, hpieces⟩
    rw [← List.append_assoc, ← hsplit]
    exact hbytes

/-! ### Ranges -/

section Ranges

variable {t : Text} {offset stop : Nat}

theorem length_bytesIn_le (t : Text) (offset stop : Nat) :
    (t.bytesIn offset stop).length ≤ stop - offset :=
  List.length_take_le ..

/-- The bytes of a text around those between two offsets. -/
theorem exists_bytes_eq (hle : offset ≤ stop) (hstop : stop ≤ t.size) :
    ∃ before behind, t.bytes = before ++ (t.bytesIn offset stop ++ behind) ∧
      before.length = offset := by
  refine ⟨t.bytes.take offset, (t.bytes.drop offset).drop (stop - offset), ?_, ?_⟩
  · rw [Text.bytesIn, List.take_append_drop, List.take_append_drop]
  · rw [List.length_take, Text.length_bytes]
    omega

/-- **The tokens of a gap have bytes,** all of them between the two offsets. -/
theorem bounds_of_mem_gapPieces (hle : offset ≤ stop) :
    ∀ piece ∈ gapPieces t offset stop,
      offset ≤ piece.start ∧ piece.start < piece.stop ∧ piece.stop ≤ stop := by
  have hlength := length_bytesIn_le t offset stop
  rcases gapPieces_cases t offset stop with
    hread | ⟨words, front, rest, blanks, hbytes, hread, hunread, -, hpieces⟩
  · intro piece hpiece
    obtain ⟨hstart, hlt, hend⟩ := hread.bounds piece hpiece
    omega
  · obtain ⟨b, hb, -⟩ := hunread.first
    have hpos : 0 < rest.length := List.length_pos_of_mem (List.mem_of_mem_head? hb)
    rw [hbytes] at hlength
    simp only [List.length_append] at hlength
    rw [hpieces, List.forall_mem_append, List.forall_mem_singleton]
    constructor
    · intro piece hpiece
      obtain ⟨hstart, hlt, hend⟩ := hread.bounds piece hpiece
      omega
    · simp only [GapPiece.start, GapPiece.stop]
      omega

/-- **The tokens of a gap stand one behind the other.** -/
theorem pairwise_gapPieces (t : Text) (offset stop : Nat) :
    (gapPieces t offset stop).Pairwise fun a b => a.stop ≤ b.start := by
  rcases gapPieces_cases t offset stop with
    hread | ⟨words, front, rest, blanks, -, hread, -, -, hpieces⟩
  · exact hread.pairwise
  · rw [hpieces, List.pairwise_append]
    refine ⟨hread.pairwise, List.pairwise_singleton .., ?_⟩
    intro piece hpiece last hlast
    obtain rfl := List.mem_singleton.1 hlast
    exact (hread.bounds piece hpiece).2.2

/-- **Every byte of the gap that is in no token is a blank.** -/
theorem isSpaceByte_of_outside_gapPieces {i : Nat} {b : UInt8} (hi : offset ≤ i) (hlt : i < stop)
    (hb : t.bytes[i]? = some b)
    (houtside : ∀ piece ∈ gapPieces t offset stop, i < piece.start ∨ piece.stop ≤ i) :
    isSpaceByte b = true := by
  obtain ⟨k, rfl⟩ := Nat.exists_eq_add_of_le hi
  have hk : (t.bytesIn offset stop)[k]? = some b := by
    rw [Text.bytesIn, List.getElem?_take_of_lt (by omega), List.getElem?_drop, hb]
  rcases gapPieces_cases t offset stop with
    hread | ⟨words, front, rest, blanks, hbytes, hread, -, hblanks, hpieces⟩
  · exact hread.isSpaceByte_of_outside hk houtside
  · rw [hpieces, List.forall_mem_append, List.forall_mem_singleton] at houtside
    obtain ⟨hwords, hrest⟩ := houtside
    simp only [GapPiece.start, GapPiece.stop] at hrest
    rw [hbytes] at hk
    -- before the token over the rest the bytes are read, and behind it they are cut off
    rcases hrest with hbefore | hbehind
    · rw [List.getElem?_append_left (by omega)] at hk
      exact hread.isSpaceByte_of_outside hk hwords
    · rw [List.getElem?_append_right (by omega), List.getElem?_append_right (by omega)] at hk
      exact hblanks b (List.mem_of_getElem? hk)

/-- **Implied tokens of a gap stand in the text**, whether or not the gap cuts characters. -/
theorem slice?_of_isImplied (hle : offset ≤ stop) (hstop : stop ≤ t.size) :
    ∀ piece ∈ gapPieces t offset stop, piece.IsImplied → ∃ word ∈ impliedWords,
      piece = .implied word piece.start piece.stop ∧
        t.slice? piece.start piece.stop = some word.toList := by
  obtain ⟨before, behind, ht, hbefore⟩ := exists_bytes_eq hle hstop
  rcases gapPieces_cases t offset stop with
    hread | ⟨words, front, rest, blanks, hbytes, hread, -, -, hpieces⟩
  · exact fun piece hpiece _ => hread.slice? ht hbefore piece hpiece
  · rw [hpieces, List.forall_mem_append, List.forall_mem_singleton]
    rw [hbytes, List.append_assoc] at ht
    exact ⟨fun piece hpiece _ => hread.slice? ht hbefore piece hpiece, False.elim⟩

/-- **The token over the rest is a slice** of a gap that cuts no character. -/
theorem slice?_of_unaccounted (hoffset : t.IsBoundary offset) (hstop : t.IsBoundary stop)
    (hle : offset ≤ stop) {first last : Nat}
    (h : .unaccounted first last ∈ gapPieces t offset stop) :
    ∃ slice, t.slice? first last = some slice := by
  obtain ⟨x, hx⟩ := Text.exists_slice?_of_isBoundary hoffset hstop hle
  rcases gapPieces_cases t offset stop with
    hread | ⟨words, front, rest, blanks, hbytes, hread, -, hblanks, hpieces⟩
  · exact (hread.isImplied _ h).elim
  · rw [hpieces, List.mem_append, List.mem_singleton] at h
    rcases h with hword | hrest
    · exact (hread.isImplied _ hword).elim
    · obtain ⟨rfl, rfl⟩ := GapPiece.unaccounted.inj hrest
      rw [Text.bytesIn_of_slice? hx] at hbytes
      obtain ⟨u, v, rfl, hu, hv⟩ := Text.exists_append_of_bytes_left hbytes hread.lt
      obtain ⟨y, z, rfl, hy, -⟩ :=
        Text.exists_append_of_bytes_right hv fun b hb => lt_of_isSpaceByte (hblanks b hb)
      rw [← hu, ← hy, Text.length_bytes, Text.length_bytes]
      exact ⟨y, (Text.slice?_of_append (Text.slice?_of_append hx).2).1⟩

/-- **The tokens of a gap that cuts no character cut none.** -/
theorem isBoundary_of_mem_gapPieces (hoffset : t.IsBoundary offset) (hstop : t.IsBoundary stop)
    (hle : offset ≤ stop) : ∀ piece ∈ gapPieces t offset stop,
      t.IsBoundary piece.start ∧ t.IsBoundary piece.stop := by
  intro piece hpiece
  cases piece with
  | implied word first last =>
    obtain ⟨_, _, _, hslice⟩ :=
      slice?_of_isImplied hle (Text.le_size_of_isBoundary hstop) _ hpiece trivial
    exact Text.isBoundary_of_slice? hslice
  | unaccounted first last =>
    obtain ⟨slice, hslice⟩ := slice?_of_unaccounted hoffset hstop hle hpiece
    exact Text.isBoundary_of_slice? hslice

end Ranges

/-! ### The error of a strict mapping -/

namespace Mapping

variable {m : Mapping}

/-- Leaves for implied tokens that stand in the text do not fail, so an error comes from what
follows them. -/
theorem pieceLeaves_append_error {words rest : List GapPiece} {e : MapError}
    (hwords : ∀ piece ∈ words, ∃ word ∈ impliedWords,
      piece = .implied word piece.start piece.stop ∧
        m.text.slice? piece.start piece.stop = some word.toList)
    (hrest : m.pieceLeaves rest = .error e) : m.pieceLeaves (words ++ rest) = .error e := by
  induction words with
  | nil => exact hrest
  | cons piece words ih =>
    rw [List.forall_mem_cons] at hwords
    obtain ⟨⟨word, hword, hpiece, hslice⟩, hothers⟩ := hwords
    have hne : word.toList ≠ [] := by
      intro hnil
      apply (wordBytes_of_mem hword).1
      rw [wordBytes, hnil, Text.bytes_nil]
    obtain ⟨p, -, hleaf⟩ := leafAt_of_slice? (impliedTags word) "" hslice (.inl hne)
    rw [hpiece, List.cons_append, pieceLeaves, pieceLeaf, hleaf]
    dsimp only
    rw [ih hothers]

/-- **A strict mapping stops at bytes that nothing accounts for,** with these bytes and their
place. -/
theorem punctuation_of_unaccounted (hstrict : m.strictness = .strict) {offset stop : Nat}
    (hle : offset ≤ stop) (hstop : stop ≤ m.text.size) {first last : Nat}
    (h : .unaccounted first last ∈ gapPieces m.text offset stop) :
    m.punctuation offset stop =
      .error (.missingToken (String.ofList ((m.text.slice? first last).getD []))
        (m.source.locate first last)) := by
  have himplied := slice?_of_isImplied hle hstop
  rcases gapPieces_cases m.text offset stop with
    hread | ⟨words, front, rest, blanks, -, hread, -, -, hpieces⟩
  · exact (hread.isImplied _ h).elim
  · rw [hpieces] at h himplied
    rw [punctuation, hpieces]
    rcases List.mem_append.1 h with hword | hlast
    · exact (hread.isImplied _ hword).elim
    · rw [← List.mem_singleton.1 hlast] at himplied ⊢
      apply pieceLeaves_append_error
      · intro piece hpiece
        exact himplied piece (List.mem_append_left _ hpiece) (hread.isImplied piece hpiece)
      · simp [pieceLeaves, pieceLeaf, hstrict]

end Mapping

/-! ### The division of a gap -/

/-- **How the bytes between two offsets are divided.**  In order:

* the tokens are all implied exactly when the bytes can be read as implied tokens and blanks;
* a reading of the bytes is what is found, so there is at most one;
* bytes that cannot be read are a front that is read, one token over the rest up to the last byte
  that is no blank, and blanks; no reading of a front has a token more;
* the tokens have bytes, follow each other and lie between the offsets;
* they cut no character if the offsets cut none;
* every other byte is a blank;
* a strict mapping stops at the token over the rest, with its slice and its line and column. -/
theorem gapPieces_division (t : Text) {offset stop : Nat} (hle : offset ≤ stop)
    (hstop : stop ≤ t.size) :
    ((∀ piece ∈ gapPieces t offset stop, piece.IsImplied) ↔
      ∃ words, ReadsAs offset (t.bytesIn offset stop) words) ∧
    (∀ words, ReadsAs offset (t.bytesIn offset stop) words → gapPieces t offset stop = words) ∧
    ((¬ ∃ words, ReadsAs offset (t.bytesIn offset stop) words) →
      ∃ words front rest blanks, t.bytesIn offset stop = front ++ (rest ++ blanks) ∧
        ReadsAs offset front words ∧ Unread rest ∧ (∀ b ∈ blanks, b ≤ 0x20) ∧
        gapPieces t offset stop =
          words ++
            [.unaccounted (offset + front.length) (offset + front.length + rest.length)] ∧
        ∀ front' back words', t.bytesIn offset stop = front' ++ back →
          ReadsAs offset front' words' → words' <+: words) ∧
    ((∀ piece ∈ gapPieces t offset stop,
        offset ≤ piece.start ∧ piece.start < piece.stop ∧ piece.stop ≤ stop) ∧
      (gapPieces t offset stop).Pairwise fun a b => a.stop ≤ b.start) ∧
    (t.IsBoundary offset → t.IsBoundary stop → ∀ piece ∈ gapPieces t offset stop,
      t.IsBoundary piece.start ∧ t.IsBoundary piece.stop) ∧
    (∀ i b, offset ≤ i → i < stop → t.bytes[i]? = some b →
      (∀ piece ∈ gapPieces t offset stop, i < piece.start ∨ piece.stop ≤ i) → b ≤ 0x20) ∧
    (∀ path first last, .unaccounted first last ∈ gapPieces t offset stop →
      Mapping.punctuation ⟨⟨path, t⟩, .strict⟩ offset stop =
        .error (.missingToken (String.ofList ((t.slice? first last).getD []))
          ⟨reportedOffset first, reportedOffset last, path, t.lineColumn? first⟩) ∧
      (t.IsBoundary offset → t.IsBoundary stop →
        (t.slice? first last).isSome ∧ (t.lineColumn? first).isSome)) := by
  refine ⟨⟨?_, ?_⟩, ?_, ?_, ⟨bounds_of_mem_gapPieces hle, pairwise_gapPieces t offset stop⟩,
    fun hoffset hend => isBoundary_of_mem_gapPieces hoffset hend hle, ?_, ?_⟩
  · intro himplied
    rcases gapPieces_cases t offset stop with hread | ⟨words, front, rest, -, -, -, -, -, hpieces⟩
    · exact ⟨_, hread⟩
    · rw [hpieces] at himplied
      exact (himplied _ List.mem_concat_self).elim
  · rintro ⟨words, hread⟩
    rw [gapPieces, hread.piecesFrom_eq (Nat.le_refl _)]
    exact hread.isImplied
  · intro words hread
    exact hread.piecesFrom_eq (Nat.le_refl _)
  · intro hnone
    rcases gapPieces_cases t offset stop with
      hread | ⟨words, front, rest, blanks, hbytes, hread, hunread, hblanks, hpieces⟩
    · exact absurd ⟨_, hread⟩ hnone
    · refine ⟨words, front, rest, blanks, hbytes, hread, hunread, ?_, hpieces, ?_⟩
      · intro b hb
        simpa [isSpaceByte] using hblanks b hb
      · intro front' back words' hsplit hread'
        -- the scan gets as far as the other reading, and its last token is not implied
        have hprefix := hread'.prefix_piecesFrom back (Nat.le_refl _)
        rw [← hsplit] at hprefix
        change words' <+: gapPieces t offset stop at hprefix
        rw [hpieces, List.prefix_concat_iff] at hprefix
        rcases hprefix with rfl | hprefix
        · exact (hread'.isImplied _ List.mem_concat_self).elim
        · exact hprefix
  · intro i b hi hlt hb houtside
    simpa [isSpaceByte] using isSpaceByte_of_outside_gapPieces hi hlt hb houtside
  · intro path first last h
    refine ⟨Mapping.punctuation_of_unaccounted (m := ⟨⟨path, t⟩, .strict⟩) rfl hle hstop h, ?_⟩
    intro hoffset hend
    obtain ⟨slice, hslice⟩ := slice?_of_unaccounted hoffset hend hle h
    rw [hslice, Text.isSome_lineColumn?]
    exact ⟨rfl, (Text.isBoundary_of_slice? hslice).1⟩

/-- Words without a blank between them are read, and a word that is not spelled out is not. -/
theorem gapPieces_division_cut :
    1 ≤ 17 ∧ 17 ≤ Text.size "x ;typechan <é) \ny".toList ∧
      gapPieces "x ;typechan <é) \ny".toList 1 17 =
        [.implied ";" 2 3, .implied "type" 3 7, .implied "chan" 7 11, .unaccounted 12 16] ∧
      Mapping.punctuation ⟨⟨"p.go", "x ;typechan <é) \ny".toList⟩, .strict⟩ 1 17 =
        .error (.missingToken "<é)" ⟨12, 16, "p.go", some ⟨1, 13⟩⟩) := by
  have hpieces : gapPieces "x ;typechan <é) \ny".toList 1 17 =
      [.implied ";" 2 3, .implied "type" 3 7, .implied "chan" 7 11, .unaccounted 12 16] := by
    decide
  have hle : 1 ≤ 17 := by decide
  have hstop : 17 ≤ Text.size "x ;typechan <é) \ny".toList := by decide
  obtain ⟨-, -, -, -, -, -, herror⟩ := gapPieces_division _ hle hstop
  refine ⟨hle, hstop, hpieces, ?_⟩
  exact (herror "p.go" 12 16 (by rw [hpieces]; decide)).1

end GoTree
