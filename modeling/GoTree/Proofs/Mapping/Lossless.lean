import GoTree.Proofs.Mapping.Document

/-!
# Nothing of the text is lost

A document keeps the text it was made from.  Its leaves hold the text they span, only blanks stand
between them, and the last of them stops where the text does.  In a strict mapping the first leaf
stands at the front of the text, so the text is read back from the leaves and the blanks around them.
The syntax tree may be any, also one that was never read from the text.

## Main results

* `mapFile_lossless`: what the leaves of a document hold and what stands around them
-/

namespace GoTree

namespace Mapping

variable {m : Mapping}

/-- Bytes before an offset at the front of the text are blank. -/
theorem AtFront.le_of_mem_bytesIn {offset : Nat} (h : m.AtFront offset) {b : UInt8}
    (hb : b ∈ m.text.bytesIn m.textStart offset) : b ≤ 0x20 := by
  rcases h with rfl | hblank
  · simp [Text.bytesIn] at hb
  · exact hblank.le_of_mem_bytesIn hb

/-- A text that can be cut after its byte order mark starts with it. -/
theorem eq_of_size_eq_textStart {a b : Text} (h : m.text = a ++ b) (hsize : a.size = m.textStart) :
    a = [] ∨ a = [Token.byteOrderMark] := by
  unfold textStart at hsize
  split at hsize
  · rename_i hmark
    obtain ⟨rest, hrest⟩ := List.head?_eq_some_iff.1 hmark
    have hsplit := Text.splitAt?_append a b
    have hsplit' := Text.splitAt?_append [Token.byteOrderMark] rest
    rw [← h, hsize] at hsplit
    rw [List.singleton_append, ← hrest, Text.size_cons, Text.size_nil, Nat.add_zero, hsplit] at hsplit'
    simp only [Option.some.injEq, Prod.mk.injEq] at hsplit'
    exact .inr hsplit'.1
  · exact .inl (Text.size_eq_zero.1 hsize)

/-- **The text is read back** from nodes that fill it from the front on. -/
theorem AtFront.exists_blanks {start : Nat} {nodes : List Node} {last : Node}
    (hfront : m.AtFront start) (h : Fills m.text start (nodes ++ [last]) m.text.size)
    (hslice : ∀ node ∈ nodes ++ [last], node.IsSlice m.text) (hlast : last.stop = m.text.size) :
    ∃ (mark : Text) (blanks : List Text), (mark = [] ∨ mark = [Token.byteOrderMark]) ∧
      blanks.length = (nodes ++ [last]).length ∧ (∀ blank ∈ blanks, blank.Blank) ∧
      m.text = mark ++ (List.zipWith (fun blank node => blank ++ node.value.toList) blanks
        (nodes ++ [last])).flatten := by
  -- the first blanks reach back to the start of the text, or to the byte order mark
  obtain ⟨start', hstart', hfills⟩ : ∃ start', (start' = 0 ∨ start' = m.textStart) ∧
      Fills m.text start' (nodes ++ [last]) last.stop := by
    rw [hlast]
    rcases hfront with rfl | hblank
    · exact ⟨0, .inl rfl, h⟩
    · exact ⟨m.textStart, .inr rfl, h.widen hblank⟩
  obtain ⟨blanks, hlength, hblanks, hread⟩ := hfills.exists_blanks hslice
  obtain ⟨mark, rest, htext, hmark, hsize⟩ := Text.slice?_eq_some_iff.1 hread
  obtain rfl : rest = [] := by
    have htotal := congrArg Text.size htext
    rw [Text.size_append, Text.size_append, hmark, hsize, hlast] at htotal
    exact Text.size_eq_zero.1 (by omega)
  rw [List.append_nil] at htext
  refine ⟨mark, blanks, ?_, hlength, hblanks, htext⟩
  rcases hstart' with rfl | rfl
  · exact .inl (Text.size_eq_zero.1 hmark)
  · exact eq_of_size_eq_textStart htext hmark

end Mapping

/-- **Nothing of the text is lost.**  Whenever a source and a syntax tree make a document, every leaf
holds the slice it spans and the position where it starts; every byte between two neighbouring leaves
is at most `0x20`; and the last leaf is the end of the file, which stands where the text stops.  In a
strict mapping every byte between an optional byte order mark and the first leaf is at most `0x20`
too, so the text is the byte order mark and then every leaf after some blanks. -/
theorem mapFile_lossless (source : Source) (file : File) (strictness : Strictness) (doc : Document)
    (h : mapFile source file strictness = .ok doc) :
    (∀ leaf ∈ doc.tree.leaves, ∃ value p,
      source.text.slice? leaf.start leaf.stop = some value ∧
      source.text.lineColumn? leaf.start = some p ∧
      leaf.token = some ⟨String.ofList value, p.line, p.column⟩) ∧
    (∀ before a b after, doc.tree.leaves = before ++ a :: b :: after →
      a.stop ≤ b.start ∧ ∀ byte ∈ source.text.bytesIn a.stop b.start, byte ≤ 0x20) ∧
    (∃ others last, doc.tree.leaves = others ++ [last] ∧ last.tags = [.endOfFile] ∧
      last.start = source.text.size ∧ last.stop = source.text.size) ∧
    (strictness = .strict → ∀ first ∈ doc.tree.leaves.head?,
      ∀ byte ∈ source.text.bytesIn (Mapping.textStart ⟨source, strictness⟩) first.start,
        byte ≤ 0x20) ∧
    (strictness = .strict → ∃ (mark : Text) (blanks : List Text),
      (mark = [] ∨ mark = [Token.byteOrderMark]) ∧ blanks.length = doc.tree.leaves.length ∧
      (∀ blank ∈ blanks, ∀ byte ∈ blank.bytes, byte ≤ 0x20) ∧
      source.text = mark ++ (List.zipWith (fun blank leaf => blank ++ leaf.value.toList) blanks
        doc.tree.leaves).flatten) := by
  obtain ⟨comments, init, last, hcomments, hshape, -, -⟩ := mapFile_eq_ok h
  have hcomment := fun leaf hleaf => (Mapping.isSlice_of_commentLeaves hcomments leaf hleaf).1
  have hfills := hshape.fills hcomment
  have hslice : ∀ leaf ∈ doc.tree.leaves, leaf.IsSlice source.text := by
    intro leaf hleaf
    have hpart :=
      (hshape.composed hcomment).part_of_mem_leaves (Mapping.Part.isSlice hcomment) hleaf
    exact hpart.isSlice hcomment
  refine ⟨fun leaf hleaf => (hslice leaf hleaf).holds, ?_, ?_, ?_, ?_⟩
  · intro before a b after hleaves
    rw [hleaves] at hfills
    have hblank := hfills.blankBetween
    exact ⟨hblank.le, fun byte hbyte => hblank.le_of_mem_bytesIn hbyte⟩
  · exact ⟨init.flatMap Node.leaves, last, hshape.leaves_eq, hshape.isEnd.tags,
      hshape.isEnd.start, hshape.isEnd.stop⟩
  · intro hstrict first hfirst byte hbyte
    obtain ⟨first', hfirst', hstart⟩ :=
      (hshape.composed hcomment).exists_first (Mapping.Part.isSlice hcomment)
    obtain rfl := Option.mem_unique hfirst hfirst'
    rw [hstart] at hbyte
    exact (hshape.atFront hstrict).le_of_mem_bytesIn hbyte
  · intro hstrict
    rw [hshape.leaves_eq] at hfills hslice ⊢
    obtain ⟨mark, blanks, hmark, hlength, hblanks, htext⟩ :=
      (hshape.atFront hstrict).exists_blanks hfills hslice hshape.isEnd.stop
    exact ⟨mark, blanks, hmark, hlength,
      fun blank hblank => Text.blank_iff_bytes.1 (hblanks blank hblank), htext⟩

/-- A package clause alone makes a document, from which its text is read back. -/
theorem mapFile_lossless_package :
    ∃ doc, mapFile ⟨"p.go", "package p".toList⟩ ⟨0, ⟨8, "p"⟩, [], [], 9⟩ .strict = .ok doc ∧
      ∃ (mark : Text) (blanks : List Text),
        (mark = [] ∨ mark = [Token.byteOrderMark]) ∧ blanks.length = doc.tree.leaves.length ∧
        (∀ blank ∈ blanks, ∀ byte ∈ blank.bytes, byte ≤ 0x20) ∧
        "package p".toList = mark ++ (List.zipWith
          (fun blank leaf => blank ++ leaf.value.toList) blanks doc.tree.leaves).flatten := by
  obtain ⟨doc, hdoc⟩ : ∃ doc,
      mapFile ⟨"p.go", "package p".toList⟩ ⟨0, ⟨8, "p"⟩, [], [], 9⟩ .strict = .ok doc :=
    exists_ok_of_isOk (by decide +kernel)
  exact ⟨doc, hdoc, (mapFile_lossless _ _ _ doc hdoc).2.2.2.2 rfl⟩

end GoTree
