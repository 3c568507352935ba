import GoTree.Proofs.Mapping.Document

/-!
# Spans and order

At every node of every tree that the mapping returns, the span is a stretch of the text that cuts no
character, children stand in order without overlap, and a node with children spans exactly from the
first of them to the last.  The end of the file is the only leaf without bytes.

## Main results

* `mapFile_spans`: what holds at every node of a document
-/

namespace GoTree

/-- **Spans and order.**  Whenever a source and a syntax tree make a document, at every node of its
tree the span lies in the text, cuts no character and does not end before it starts; the node has a
text of its own exactly when it has no children; with children it spans from the start of the first
to the end of the last; and every child ends before every later one starts.  The last leaf is the end
of the file and the last child of the root; every other leaf has bytes and is not tagged as the
end. -/
theorem mapFile_spans (source : Source) (file : File) (strictness : Strictness) (doc : Document)
    (h : mapFile source file strictness = .ok doc) :
    (∀ node ∈ doc.tree.preorder,
      node.start ≤ node.stop ∧ node.stop ≤ source.text.size ∧
      source.text.IsBoundary node.start ∧ source.text.IsBoundary node.stop ∧
      (node.token.isSome = true ↔ node.children = []) ∧
      (∀ first ∈ node.children.head?, ∀ last ∈ node.children.getLast?,
        node.start = first.start ∧ node.stop = last.stop) ∧
      node.children.Pairwise fun a b => a.stop ≤ b.start) ∧
    ∃ others last, doc.tree.leaves = others ++ [last] ∧ doc.tree.children.getLast? = some last ∧
      last.tags = [.endOfFile] ∧ last.start = source.text.size ∧ last.stop = source.text.size ∧
      ∀ leaf ∈ others, leaf.start < leaf.stop ∧ leaf.hasTag .endOfFile = false := by
  obtain ⟨comments, init, last, hcomments, hshape, -, -⟩ := mapFile_eq_ok h
  have hcomment := fun leaf hleaf => (Mapping.isSlice_of_commentLeaves hcomments leaf hleaf).1
  have hpart : ∀ node, Mapping.Part ⟨source, strictness⟩ file comments node →
      node.IsSlice source.text := Mapping.Part.isSlice hcomment
  refine ⟨?_, init.flatMap Node.leaves, last, hshape.leaves_eq, ?_, hshape.isEnd.tags,
    hshape.isEnd.start, hshape.isEnd.stop, ?_⟩
  · intro node hnode
    have hcomposed := (hshape.composed hcomment).of_mem_preorder hpart hnode
    obtain ⟨hstart, hstop⟩ := hcomposed.isBoundary hpart
    exact ⟨hcomposed.start_le_stop hpart, Text.le_size_of_isBoundary hstop, hstart, hstop,
      hcomposed.span hpart⟩
  · rw [hshape.children_eq.1]
    simp
  · intro leaf hleaf
    exact (hshape.origin_of_mem hcomment hleaf).start_lt_stop hcomments

/-- A package clause alone makes a document, whose leaves but the last have bytes. -/
theorem mapFile_spans_package :
    ∃ doc, mapFile ⟨"p.go", "package p".toList⟩ ⟨0, ⟨8, "p"⟩, [], [], 9⟩ .strict = .ok doc ∧
      ∃ others last, doc.tree.leaves = others ++ [last] ∧
        doc.tree.children.getLast? = some last ∧ last.tags = [.endOfFile] ∧ last.start = 9 ∧
        last.stop = 9 ∧ ∀ leaf ∈ others, leaf.start < leaf.stop ∧ leaf.hasTag .endOfFile = false := by
  obtain ⟨doc, hdoc⟩ : ∃ doc,
      mapFile ⟨"p.go", "package p".toList⟩ ⟨0, ⟨8, "p"⟩, [], [], 9⟩ .strict = .ok doc :=
    exists_ok_of_isOk (by decide +kernel)
  exact ⟨doc, hdoc, (mapFile_spans _ _ _ doc hdoc).2⟩

end GoTree
