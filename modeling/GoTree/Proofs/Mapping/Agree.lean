import Mathlib.Data.List.Find
import Mathlib.Order.MinMax
import GoTree.Proofs.Mapping.Between
import GoTree.Proofs.Mapping.Moved
import GoTree.Proofs.Mapping.Steps
import GoTree.Proofs.Text.Returns

/-!
# Mapping a text with carriage returns

Two mappings side by side: one of a text without carriage returns, and one of the same text with a
carriage return before every line feed.  Step by step they make the same nodes, which in the second
text lie further on and hold the carriage returns of their lines.

The new bytes are blanks, so a gap holds the same tokens in both texts.  An expected token is
compared with the text as it is stored, without carriage returns, so it is found in both texts or in
neither; here only the first case is needed.

## Main definitions

* `Node.withReturns`: a node in the text with carriage returns
* `Agree`: two runs of which one succeeds exactly when the other does
* `Mapping.Returns`: two mappings of a text with and without carriage returns

## Main results

* `gapPieces_shift`: the tokens of a gap
* `Mapping.Returns.append`: appending a child
* `Mapping.Returns.realize`: realizing a plan all of whose tokens stand in the text
-/

namespace GoTree

open GoTree.Text

/-! ### Nodes -/

/-- The text of a leaf with carriage returns. -/
def LeafToken.withReturns (token : LeafToken) : LeafToken :=
  ⟨String.ofList (Text.withReturns token.value.toList), token.line, token.column⟩

namespace Node

mutual

/-- **A node in the text with carriage returns.**  It spans the same characters and the carriage
returns between them. -/
def withReturns (t : Text) : Node → Node
  | ⟨tags, token, label, children, start, stop⟩ =>
    ⟨tags, token.map LeafToken.withReturns, label, withReturnsAll t children, t.shift start,
      t.shift stop⟩

/-- The nodes of a list in the text with carriage returns. -/
def withReturnsAll (t : Text) : List Node → List Node
  | [] => []
  | node :: rest => withReturns t node :: withReturnsAll t rest

end

variable {t : Text}

@[simp]
theorem withReturnsAll_eq (nodes : List Node) :
    withReturnsAll t nodes = nodes.map (withReturns t) := by
  induction nodes with
  | nil => rfl
  | cons node nodes ih => rw [withReturnsAll, ih, List.map_cons]

@[simp]
theorem start_withReturns (node : Node) : (node.withReturns t).start = t.shift node.start := by
  obtain ⟨tags, token, label, children, start, stop⟩ := node
  rw [withReturns]

@[simp]
theorem stop_withReturns (node : Node) : (node.withReturns t).stop = t.shift node.stop := by
  obtain ⟨tags, token, label, children, start, stop⟩ := node
  rw [withReturns]

@[simp]
theorem tags_withReturns (node : Node) : (node.withReturns t).tags = node.tags := by
  obtain ⟨tags, token, label, children, start, stop⟩ := node
  rw [withReturns]

@[simp]
theorem value_withReturns (node : Node) :
    (node.withReturns t).value = String.ofList (Text.withReturns node.value.toList) := by
  obtain ⟨tags, token, label, children, start, stop⟩ := node
  rw [withReturns]
  cases token <;> rfl

theorem withReturns_leaf (tags : List Tag) (label : String) (value : Text) (line column : Nat)
    (start stop : Nat) :
    withReturns t (leaf tags label ⟨String.ofList value, line, column⟩ start stop) =
      leaf tags label ⟨String.ofList value.withReturns, line, column⟩ (t.shift start)
        (t.shift stop) := by
  rw [leaf, withReturns]
  simp [LeafToken.withReturns, leaf]

/-- **A node over moved children** is the moved node over the children. -/
theorem group?_map (tags : List Tag) (label : String) (children : List Node) :
    group? tags label (children.map (withReturns t)) =
      (group? tags label children).map (withReturns t) := by
  cases children with
  | nil => rfl
  | cons first rest =>
    obtain ⟨last, hlast, hgroup⟩ := group?_cons tags label first rest
    have hlast' : ((first :: rest).map (withReturns t)).getLast? = some (last.withReturns t) := by
      rw [List.getLast?_map, hlast, Option.map_some]
    rw [hgroup, group?, hlast', List.map_cons, List.head?_cons, Option.map_some, withReturns]
    simp [(monotone_shift t).map_max]

end Node

/-- The comments around a place in the text with carriage returns. -/
def CommentCursor.withReturns (t : Text) (cursor : CommentCursor) : CommentCursor :=
  ⟨cursor.passed.map (Node.withReturns t), cursor.ahead.map (Node.withReturns t)⟩

/-- Comments keep their order, so the same ones are passed over. -/
theorem CommentCursor.rewind_withReturns {t : Text} (cursor : CommentCursor) (offset : Nat) :
    (cursor.withReturns t).rewind (t.shift offset) = (cursor.rewind offset).withReturns t := by
  obtain ⟨passed, ahead⟩ := cursor
  simp only [rewind, withReturns]
  induction passed generalizing ahead with
  | nil => rfl
  | cons comment passed ih =>
    simp only [List.map_cons, rewindFrom, Node.start_withReturns, shift_le_shift]
    split
    · exact ih (comment :: ahead)
    · rfl

/-! ### Runs that agree -/

section

variable {α β γ δ : Type}

/-- **Runs that agree:** the second succeeds exactly when the first does, and then with what `F`
makes of the result of the first. -/
def Agree (F : α → β) (r : Except MapError α) (r' : Except MapError β) : Prop :=
  r'.toOption = r.toOption.map F

namespace Agree

variable {F : α → β} {G : γ → δ} {r : Except MapError α} {r' : Except MapError β}

theorem ok {a : α} {b : β} (h : b = F a) : Agree F (.ok a) (.ok b) := by
  subst h
  rfl

theorem error (e e' : MapError) : Agree F (.error e) (.error e') := rfl

/-- Errors of one kind are tolerated alike. -/
theorem tolerate {a : α} {b : β} (strictness : Strictness) {e e' : MapError}
    (he : e'.isTolerable = e.isTolerable) (h : b = F a) :
    Agree F (strictness.tolerate e a) (strictness.tolerate e' b) := by
  unfold Strictness.tolerate Strictness.tolerates
  rw [he]
  split
  · exact ok h
  · exact error e e'

/-- **One run after the other.** -/
theorem bind {k : α → Except MapError γ} {k' : β → Except MapError δ} (h : Agree F r r')
    (hk : ∀ a, Agree G (k a) (k' (F a))) : Agree G (r >>= k) (r' >>= k') := by
  cases r with
  | error e =>
    cases r' with
    | error e' => exact error e e'
    | ok b => cases h
  | ok a =>
    cases r' with
    | error e' => cases h
    | ok b =>
      obtain rfl : b = F a := Option.some.inj h
      exact hk a

/-- A test that comes out the same. -/
theorem ite {s : Except MapError α} {s' : Except MapError β} {P Q : Prop} [Decidable P]
    [Decidable Q] (hPQ : Q ↔ P) (h : Agree F r r') (hs : Agree F s s') :
    Agree F (if P then r else s) (if Q then r' else s') := by
  by_cases hP : P
  · rwa [if_pos hP, if_pos (hPQ.2 hP)]
  · rwa [if_neg hP, if_neg (mt hPQ.1 hP)]

/-- Entry by entry. -/
theorem collect {k : α → Except MapError γ} {k' : β → Except MapError δ}
    (hk : ∀ a, Agree G (k a) (k' (F a))) (list : List α) :
    Agree (List.map G) (Mapping.collect k list) (Mapping.collect k' (list.map F)) := by
  induction list with
  | nil => exact ok rfl
  | cons a list ih =>
    rw [List.map_cons, Mapping.collect_cons_eq, Mapping.collect_cons_eq]
    exact (hk a).bind fun b => ih.bind fun bs => ok rfl

theorem isOk_eq (h : Agree F r r') : r'.isOk = r.isOk := by
  cases r with
  | error e =>
    cases r' with
    | error e' => rfl
    | ok b => cases h
  | ok a =>
    cases r' with
    | error e' => cases h
    | ok b => rfl

end Agree

end

/-! ### The tokens of a gap -/

/-- A token of a gap in the text with carriage returns. -/
def GapPiece.shift (t : Text) : GapPiece → GapPiece
  | .implied word start stop => .implied word (t.shift start) (t.shift stop)
  | .unaccounted start stop => .unaccounted (t.shift start) (t.shift stop)

theorem widen_eq_nil {bs : List UInt8} : widen bs = [] ↔ bs = [] := by
  rw [← List.length_eq_zero_iff, ← List.length_eq_zero_iff, length_widen]
  constructor
  · intro h
    omega
  · intro h
    rw [List.length_eq_zero_iff.1 h]
    rfl

/-- Only blanks are put in, before a byte that is one itself. -/
theorem isSpaceByte_of_mem_widen {bs : List UInt8} (h : ∀ b ∈ bs, isSpaceByte b = true) :
    ∀ b ∈ widen bs, isSpaceByte b = true := by
  intro b hb
  obtain ⟨c, hc, hbc⟩ := List.mem_flatMap.1 hb
  split at hbc
  · rcases List.mem_cons.1 hbc with rfl | hbc
    · decide
    · obtain rfl := List.mem_singleton.1 hbc
      decide
  · exact List.mem_singleton.1 hbc ▸ h c hc

/-- A byte that is no blank stays where it is. -/
theorem widen_cons_of_not_space {b : UInt8} (h : isSpaceByte b = false) (bs : List UInt8) :
    widen (b :: bs) = b :: widen bs := by
  have hb : b ≠ 0x0a := by
    rintro rfl
    exact absurd h (by decide)
  rw [widen_cons, if_neg hb, List.singleton_append]

theorem trimEnd_append_blank {bs blanks : List UInt8} (h : ∀ b ∈ blanks, isSpaceByte b = true) :
    trimEnd (bs ++ blanks) = trimEnd bs := by
  rw [trimEnd, List.reverse_append, List.dropWhile_append_of_pos, ← trimEnd]
  intro b hb
  exact h b (List.mem_reverse.1 hb)

/-- The blanks at the end are blanks with carriage returns, too. -/
theorem trimEnd_widen (bs : List UInt8) : trimEnd (widen bs) = widen (trimEnd bs) := by
  -- the bytes come off at the end
  induction bs using List.reverseRecOn with
  | nil => rfl
  | append_singleton bs b ih =>
    by_cases hb : isSpaceByte b = true
    · have hblank : ∀ c ∈ [b], isSpaceByte c = true := by simpa using hb
      rw [widen_append, trimEnd_append_blank (isSpaceByte_of_mem_widen hblank), ih,
        trimEnd_append_blank hblank]
    · have hb' : isSpaceByte b = false := by simpa using hb
      have hkeep (cs : List UInt8) : trimEnd (cs ++ [b]) = cs ++ [b] := by
        simpa [trimEnd] using trimEnd_append (a := cs ++ [b]) (b := []) (by simp) hb'
      rw [widen_append, hkeep, widen_append, widen_cons_of_not_space hb', widen_nil, hkeep]

theorem isPrefixOf_widen {word : List UInt8} (h : ∀ b ∈ word, isSpaceByte b = false)
    (bs : List UInt8) : word.isPrefixOf (widen bs) = word.isPrefixOf bs := by
  induction word generalizing bs with
  | nil => rfl
  | cons a word ih =>
    rw [List.forall_mem_cons] at h
    cases bs with
    | nil => rfl
    | cons b bs =>
      by_cases hb : b = 0x0a
      · -- no word starts with a line feed or with the carriage return before it
        subst hb
        have ha (c : UInt8) (hc : isSpaceByte c = true) : (a == c) = false := by
          rw [beq_eq_false_iff_ne]
          rintro rfl
          exact absurd (h.1.symm.trans hc) (by decide)
        rw [widen_cons, if_pos rfl]
        simp [List.isPrefixOf, ha 0x0d (by decide), ha 0x0a (by decide)]
      · rw [widen_cons, if_neg hb, List.singleton_append, List.isPrefixOf, List.isPrefixOf, ih h.2]

theorem impliedPrefix?_widen (bs : List UInt8) : impliedPrefix? (widen bs) = impliedPrefix? bs := by
  refine Option.ext fun word => ?_
  rw [impliedPrefix?_eq_some_iff, impliedPrefix?_eq_some_iff]
  refine and_congr_right fun hword => ?_
  rw [← List.isPrefixOf_iff_prefix, ← List.isPrefixOf_iff_prefix,
    isPrefixOf_widen fun b hb => ((wordBytes_of_mem hword).2 b hb).2]

/-- Bytes at an offset move the offset behind them. -/
theorem shift_add_length {t : Text} {offset : Nat} {u : List UInt8}
    (h : u <+: t.bytes.drop offset) :
    t.shift (offset + u.length) = t.shift offset + (widen u).length := by
  rw [shift, shift, List.take_add, List.count_append, ← List.prefix_iff_eq_take.1 h, length_widen]
  omega

theorem not_space_of_mem_head?_widen {bs : List UInt8}
    (h : ∀ b ∈ bs.head?, isSpaceByte b = false) :
    ∀ b ∈ (widen bs).head?, isSpaceByte b = false := by
  cases bs with
  | nil => simp
  | cons c bs =>
    rw [widen_cons_of_not_space (h c rfl)]
    simpa using h c rfl

/-- A word of the language is no line break. -/
theorem widen_wordBytes {word : String} (h : word ∈ impliedWords) :
    widen (wordBytes word) = wordBytes word :=
  widen_of_not_mem fun hfeed => absurd ((wordBytes_of_mem h).2 _ hfeed).2 (by decide)

/-- **The tokens among some bytes of the text**, in however many rounds they are looked for. -/
theorem piecesFrom_widen {t : Text} {offset n n' : Nat} {bs : List UInt8}
    (hbs : bs <+: t.bytes.drop offset) (hn : bs.length ≤ n) (hn' : (widen bs).length ≤ n') :
    piecesFrom n' (t.shift offset) (widen bs) =
      (piecesFrom n offset bs).map (GapPiece.shift t) := by
  induction n generalizing offset n' bs with
  | zero =>
    obtain rfl : bs = [] := List.length_eq_zero_iff.1 (Nat.le_zero.1 hn)
    rw [widen_nil, Mapping.piecesFrom_nil, Mapping.piecesFrom_nil, List.map_nil]
  | succ n ih =>
    by_cases hempty : bs = []
    · subst hempty
      rw [widen_nil, Mapping.piecesFrom_nil, Mapping.piecesFrom_nil, List.map_nil]
    · obtain ⟨n', rfl⟩ : ∃ k, n' = k + 1 := by
        have hpos := List.length_pos_iff.2 (mt widen_eq_nil.1 hempty)
        exact Nat.exists_eq_add_one.2 (by omega)
      -- the blanks in front are passed over, wide or not
      obtain ⟨u, r, rfl, hu, hr⟩ := exists_spaces_append bs
      have hu' := shift_add_length ((List.prefix_append u r).trans hbs)
      rw [widen_append, piecesFrom_blank_append hu hr,
        piecesFrom_blank_append (isSpaceByte_of_mem_widen hu) (not_space_of_mem_head?_widen hr),
        impliedPrefix?_widen, ← hu']
      by_cases hend : r = []
      · subst hend
        rfl
      · rw [if_neg (by simpa [widen_eq_nil] using hend), if_neg (by simpa using hend)]
        cases hword : impliedPrefix? r with
        | none =>
          -- no word is at the front: the rest is one piece
          have hstop := shift_add_length (u := u ++ r) hbs
          rw [widen_append, List.length_append, List.length_append, ← Nat.add_assoc,
            ← Nat.add_assoc, ← hu'] at hstop
          simp [GapPiece.shift, hstop]
        | some word =>
          obtain ⟨hmem, rest, rfl⟩ := impliedPrefix?_eq_some_iff.1 hword
          have hwiden := widen_wordBytes hmem
          have hstop := shift_add_length (u := u ++ wordBytes word)
            ((List.prefix_append _ rest).trans (by rwa [List.append_assoc]))
          rw [widen_append, List.length_append, List.length_append, ← Nat.add_assoc,
            ← Nat.add_assoc, ← hu', hwiden] at hstop
          have hrest : rest <+: t.bytes.drop (offset + u.length + (wordBytes word).length) := by
            obtain ⟨more, hmore⟩ := hbs
            refine ⟨more, ?_⟩
            rw [Nat.add_assoc, ← List.drop_drop, ← hmore, ← List.length_append,
              ← List.append_assoc u, List.append_assoc (u ++ wordBytes word), List.drop_left]
          -- a word takes at least one byte, so one round less is enough for the rest
          have hpos := List.length_pos_iff.2 (wordBytes_of_mem hmem).1
          simp only [widen_append, hwiden, List.length_append] at hn hn'
          simp only [widen_append, hwiden, List.drop_left, List.map_cons, GapPiece.shift, ← hstop]
          rw [ih hrest (by omega) (by omega)]

/-- **The tokens of a gap are the same**, between the offsets that belong to them. -/
theorem gapPieces_shift (t : Text) (offset stop : Nat) :
    gapPieces t.withReturns (t.shift offset) (t.shift stop) =
      (gapPieces t offset stop).map (GapPiece.shift t) := by
  unfold gapPieces
  rw [bytesIn_shift]
  dsimp only
  rw [trimEnd_widen]
  refine piecesFrom_widen ?_ (Nat.le_refl _) (Nat.le_refl _)
  obtain ⟨blanks, hblanks, -⟩ := exists_trimEnd_append (t.bytesIn offset stop)
  have hfront : trimEnd (t.bytesIn offset stop) <+: t.bytesIn offset stop :=
    ⟨blanks, hblanks.symm⟩
  exact hfront.trans (List.take_prefix _ _)

namespace Mapping

/-! ### Two mappings -/

/-- **Two mappings** of a text without carriage returns and of the same text with one before every
line feed. -/
structure Returns (m m' : Mapping) : Prop where
  text : m'.text = m.text.withReturns
  strictness : m'.strictness = m.strictness
  free : '\r' ∉ m.text

namespace Returns

variable {m m' : Mapping} (h : m.Returns m')

include h

/-- **A leaf over the same characters.** -/
theorem leafAt (tags : List Tag) (start stop : Nat) (label : String) :
    Agree (Option.map (Node.withReturns m.text)) (m.leafAt tags start stop label)
      (m'.leafAt tags (m.text.shift start) (m.text.shift stop) label) := by
  unfold Mapping.leafAt
  rw [h.text, h.strictness, ← shift_size, lineColumn?_shift h.free, slice?_shift]
  refine .ite ?_ (.error _ _) (.ite ?_ (.tolerate _ rfl rfl) ?_)
  · rw [shift_lt_shift, shift_lt_shift]
  · rw [shift_inj]
  · cases m.text.lineColumn? start with
    | none => exact .tolerate _ rfl rfl
    | some p =>
      cases m.text.slice? start stop with
      | none => exact .tolerate _ rfl rfl
      | some value => exact .ok (by rw [Option.map_some, Node.withReturns_leaf])

theorem pieceLeaf (piece : GapPiece) :
    Agree (Option.map (Node.withReturns m.text)) (m.pieceLeaf piece)
      (m'.pieceLeaf (piece.shift m.text)) := by
  cases piece with
  | implied word start stop => exact h.leafAt _ start stop ""
  | unaccounted start stop =>
    rw [GapPiece.shift, pieceLeaf_unaccounted_eq, pieceLeaf_unaccounted_eq, h.strictness]
    refine Agree.bind (F := fun _ : Unit => ()) (.tolerate _ rfl rfl) fun _ => ?_
    exact h.leafAt [] start stop ""

theorem pieceLeaves (pieces : List GapPiece) :
    Agree (List.map (Node.withReturns m.text)) (m.pieceLeaves pieces)
      (m'.pieceLeaves (pieces.map (GapPiece.shift m.text))) := by
  induction pieces with
  | nil => exact .ok rfl
  | cons piece pieces ih =>
    rw [List.map_cons, pieceLeaves_cons_eq, pieceLeaves_cons_eq]
    refine (h.pieceLeaf piece).bind fun leaf => ih.bind fun leaves => .ok ?_
    cases leaf <;> simp

/-- **The leaves for the tokens of a gap.** -/
theorem punctuation (start stop : Nat) :
    Agree (List.map (Node.withReturns m.text)) (m.punctuation start stop)
      (m'.punctuation (m.text.shift start) (m.text.shift stop)) := by
  unfold Mapping.punctuation
  rw [h.text, gapPieces_shift]
  exact h.pieceLeaves _

/-- **Filling a gap.**  All its decisions compare offsets, and offsets keep their order. -/
theorem fillFrom (stop start : Nat) (passed ahead : List Node) :
    Agree (Prod.map (List.map (Node.withReturns m.text)) (CommentCursor.withReturns m.text))
      (m.fillFrom stop start passed ahead)
      (m'.fillFrom (m.text.shift stop) (m.text.shift start)
        (passed.map (Node.withReturns m.text)) (ahead.map (Node.withReturns m.text))) := by
  induction ahead generalizing start passed with
  | nil =>
    rw [List.map_nil, fillFrom_nil_eq, fillFrom_nil_eq]
    exact (h.punctuation start stop).bind fun leaves => .ok rfl
  | cons comment ahead ih =>
    rw [List.map_cons, fillFrom_cons_eq, fillFrom_cons_eq, Node.start_withReturns,
      Node.stop_withReturns]
    refine .ite shift_lt_shift (ih start (comment :: passed)) (.ite shift_lt_shift ?_ ?_)
    · exact (h.punctuation start stop).bind fun leaves => .ok rfl
    · refine (h.punctuation start comment.start).bind fun leaves => ?_
      exact (ih comment.stop (comment :: passed)).bind fun filled => .ok (by simp)

theorem fillGap (start stop : Nat) (cursor : CommentCursor) :
    Agree (Prod.map (List.map (Node.withReturns m.text)) (CommentCursor.withReturns m.text))
      (m.fillGap start stop cursor)
      (m'.fillGap (m.text.shift start) (m.text.shift stop) (cursor.withReturns m.text)) := by
  unfold Mapping.fillGap
  rw [CommentCursor.rewind_withReturns]
  exact h.fillFrom stop start _ _

/-- **Appending a child.** -/
theorem append (children : List Node) (child : Option Node) (cursor : CommentCursor) :
    Agree (Prod.map (List.map (Node.withReturns m.text)) (CommentCursor.withReturns m.text))
      (m.append children child cursor)
      (m'.append (children.map (Node.withReturns m.text)) (child.map (Node.withReturns m.text))
        (cursor.withReturns m.text)) := by
  cases child with
  | none => exact .ok rfl
  | some child =>
    rw [Option.map_some]
    cases hlast : children.getLast? with
    | none =>
      obtain rfl := List.getLast?_eq_none_iff.1 hlast
      exact .ok rfl
    | some last =>
      have hlast' : (children.map (Node.withReturns m.text)).getLast? =
          some (last.withReturns m.text) := by
        rw [List.getLast?_map, hlast, Option.map_some]
      rw [append_some_eq m hlast, append_some_eq m' hlast', Node.start_withReturns,
        Node.stop_withReturns]
      refine .ite shift_lt_shift (.error _ _) ?_
      exact (h.fillGap last.stop child.start cursor).bind fun filled => .ok (by simp)

/-! ### Expected tokens -/

/-- **A token that stands in the text** is found in both texts, over the same characters. -/
theorem expect {x : Text} {pos stop : Nat} (tags : List Tag) (label : String)
    (hslice : m.text.slice? pos stop = some x) (hne : x ≠ [] ∨ tags = [.endOfFile]) :
    Agree (Option.map (Node.withReturns m.text)) (m.expect tags pos (String.ofList x) label)
      (m'.expect tags (m.text.shift pos) (String.ofList x) label) := by
  have hfree := not_return_mem_of_slice? h.free hslice
  have hslice' : m'.text.slice? (m.text.shift pos) (m.text.shift stop) = some x.withReturns := by
    rw [h.text, slice?_shift, hslice, Option.map_some]
  -- what is stored of the longer token is the shorter one
  obtain ⟨p, hp, hmade⟩ := expect_of_slice? tags label hslice hne
    fun hlast => hfree (List.mem_of_getLast? hlast)
  obtain ⟨p', hp', hmade'⟩ := expect_of_slice? tags label hslice'
    (hne.imp_left fun hx => mt withReturns_eq_nil.1 hx)
    (by rw [getLast?_withReturns]; exact fun hlast => hfree (List.mem_of_getLast? hlast))
  rw [withoutReturns_of_not_mem hfree] at hmade
  rw [withoutReturns_withReturns, withoutReturns_of_not_mem hfree] at hmade'
  rw [h.text, lineColumn?_shift h.free, hp, Option.some.injEq] at hp'
  rw [hmade, hmade', hp']
  exact .ok (by rw [Option.map_some, Node.withReturns_leaf])

end Returns

end Mapping

/-- **A planned token stands in the text**, and `f` moves it like the text around it. -/
structure Plan.Leaf.Stands (t : Text) (f : Offset → Offset) (leaf : Plan.Leaf) : Prop where
  slice : ∃ stop, t.slice? leaf.pos stop = some leaf.text.toList
  explicit : leaf.text.toList ≠ [] ∨ leaf.tags = [.endOfFile]
  moved : f leaf.pos = t.shift leaf.pos

namespace Mapping.Returns

variable {m m' : Mapping} (h : m.Returns m') {f : Offset → Offset}

include h

/-! ### Plans -/

mutual

/-- **Realizing a plan** all of whose tokens stand in the text. -/
theorem realize : (plan : Plan) → (∀ leaf ∈ plan.leaves, leaf.Stands m.text f) →
    (cursor : CommentCursor) →
    Agree (Prod.map (Option.map (Node.withReturns m.text)) (CommentCursor.withReturns m.text))
      (m.realize plan cursor) (m'.realize (plan.move f) (cursor.withReturns m.text))
  | .nothing, _, cursor => by
    rw [Plan.move_nothing, Mapping.realize, Mapping.realize]
    exact .ok rfl
  | .token tags pos text label, hstands, cursor => by
    obtain ⟨⟨stop, hslice⟩, hexplicit, hmoved⟩ := hstands ⟨tags, pos, text, label⟩ (by simp)
    have hexpect := h.expect tags label hslice hexplicit
    rw [String.ofList_toList] at hexpect
    rw [Plan.move_token, realize_token_eq, realize_token_eq, hmoved]
    exact hexpect.bind fun leaf => .ok rfl
  | .group tags label parts, hstands, cursor => by
    rw [Plan.move_group, realize_group_eq, realize_group_eq]
    refine (realizeAll parts hstands [] cursor).bind fun made => .ok ?_
    simp [Node.group?_map]

theorem realizeAll : (plans : List Plan) →
    (∀ leaf ∈ Plan.leavesAll plans, leaf.Stands m.text f) → (children : List Node) →
    (cursor : CommentCursor) →
    Agree (Prod.map (List.map (Node.withReturns m.text)) (CommentCursor.withReturns m.text))
      (m.realizeAll plans children cursor)
      (m'.realizeAll (plans.map (Plan.move f)) (children.map (Node.withReturns m.text))
        (cursor.withReturns m.text))
  | [], _, children, cursor => by
    rw [List.map_nil, Mapping.realizeAll, Mapping.realizeAll]
    exact .ok rfl
  | plan :: plans, hstands, children, cursor => by
    rw [Plan.leavesAll_cons, List.forall_mem_append] at hstands
    rw [List.map_cons, realizeAll_cons_eq, realizeAll_cons_eq]
    refine (realize plan hstands.1 cursor).bind fun made => ?_
    refine (h.append children made.1 made.2).bind fun grown => ?_
    exact realizeAll plans hstands.2 grown.1 grown.2

end

end Mapping.Returns

end GoTree
