import GoTree.Grammar.Run
import GoTree.Proofs.Mapping.Tallies

/-!
# A census of constructs

The tree of a file has as many nodes with the tag of a kind of construct as there are constructs of
this kind anywhere in the file: none is left out, made twice or tagged as something else.  This
holds of any syntax tree that a strict mapping accepts, whether or not it was read from the source.

## Main results

* `Decl.tagged_plan`: the tagged nodes of the plan of a declaration
* `mapFile_census`: the tagged nodes of a tree are the constructs of its file
-/

namespace GoTree

/-- The parts that have the tag of a kind are those of the kind. -/
theorem Part.marks_tag (kind : Construct) (part : Part) :
    part.marks kind.tag = decide (part.construct? = some kind) := by
  rw [marks, decide_eq_decide, Option.map_eq_some_iff]
  constructor
  · rintro ⟨other, hother, htag⟩
    rw [hother, Construct.tag_injective htag]
  · exact fun h => ⟨kind, h, rfl⟩

section

variable {tag : Tag} (htag : tag.isCounted = true)

include htag

/-- **The tagged nodes of the plan of a declaration** are as many as the parts inside it of the kind
that is tagged. -/
theorem Decl.tagged_plan (d : Decl) (field : String) :
    (d.plan field).tagged tag = d.part.all.countP (Part.marks tag) := by
  have hplanned : d.part.PlannedWithout tag (d.plan field) := by
    cases d <;> exact ⟨field, rfl⟩
  exact hplanned.tagged_eq htag

theorem Decl.taggedAll_elementsFrom (decls : List Decl) (i : Nat) :
    Plan.taggedAll tag (Plan.elementsFrom Decl.plan i decls) =
      (decls.flatMap fun d => d.part.all).countP (Part.marks tag) := by
  induction decls generalizing i with
  | nil => rfl
  | cons d decls ih =>
    rw [Plan.elementsFrom, Plan.taggedAll_cons, d.tagged_plan htag, ih, List.flatMap_cons,
      List.countP_append]

end

/-- **The census of constructs.**  If a file is mapped strictly to a document, the tree has as many
nodes with the tag of a kind of construct as there are constructs of this kind in the file. -/
theorem mapFile_census (source : Source) (file : File) (doc : Document) (kind : Construct)
    (h : mapFile source file .strict = .ok doc) :
    doc.tree.descendants.countP (·.hasTag kind.tag) = file.census kind := by
  have hcounted : kind.tag.isCounted = true := Tag.isCounted_tag kind
  have hname : (file.name.plan [] "Name").tagged kind.tag = 0 :=
    file.name.tagged_plan (Tag.isTallied_of_isCounted hcounted) List.not_mem_nil
  calc doc.tree.descendants.countP (·.hasTag kind.tag)
      = (file.name.plan [] "Name").tagged kind.tag +
          Plan.taggedAll kind.tag (Plan.elementsFrom Decl.plan 0 file.decls) :=
        tagged_of_mapFile (by cases kind <;> decide) h
    _ = file.parts.countP (Part.marks kind.tag) := by
        rw [hname, Nat.zero_add, Decl.taggedAll_elementsFrom hcounted, File.parts]
    _ = file.census kind := by
        rw [funext (Part.marks_tag kind), File.census]

/-- A call in the length of an array type and one behind `go`, both in a function literal. -/
theorem mapFile_census_calls :
    ∃ file doc, mapFile ⟨"p.go", "package p\nvar f = func(a [g()]int) { go h(i.j) }".toList⟩ file
        .strict = .ok doc ∧
      doc.tree.descendants.countP (·.hasTag .call) = file.census .call ∧ file.census .call = 2 := by
  obtain ⟨file, -, hmap⟩ : ∃ file,
      parse "package p\nvar f = func(a [g()]int) { go h(i.j) }".toList = .ok file ∧
      ((mapFile ⟨"p.go", "package p\nvar f = func(a [g()]int) { go h(i.j) }".toList⟩ file
        .strict).toOption.any fun doc =>
          doc.tree.descendants.countP (·.hasTag .call) == 2) = true := by
    refine exists_ok_and_of_any ?_
    decide +kernel
  obtain ⟨doc, hdoc, hcount⟩ := exists_ok_and_of_any hmap
  have hcensus : doc.tree.descendants.countP (·.hasTag .call) = file.census .call :=
    mapFile_census _ file doc .call hdoc
  exact ⟨file, doc, hdoc, hcensus, hcensus.symm.trans (by simpa using hcount)⟩

end GoTree
