import Mathlib.Data.List.Nodup
import GoTree.Proofs.Text.Json
import GoTree.Tree.Document

/-!
# A document is determined by its text

The text of a document leaves out fields that are empty and writes a range as one string, and still
nothing but the bytes spanned by the nodes is lost.  Which fields an object has is told by looking
them up by name, so that a field that is left out is as good as one that is there.

## Main definitions

* `Json.field?`: a field of an object by its name
* `Node.withoutSpans`: a tree without the bytes it spans

## Main results

* `Tag.name_injective`, `TokenClass.name_injective`, `LineRange.show_injective`: the strings that
  stand for tags, classes and ranges
* `CommentEntry.toJson_injective`, `TokenEntry.toJson_injective`: the entries of the tables
* `Node.toJson_eq_iff`: the trees with one JSON value
* `Document.written_eq_iff`: the documents that any writer of JSON values writes the same
* `Document.text_determines`: the documents with one text
-/

namespace GoTree

/-! ## Names and ranges -/

namespace Tag

theorem mem_all (tag : Tag) : tag ∈ all := by
  cases tag <;> decide

theorem nodup_names : (all.map name).Nodup := by
  decide +kernel

theorem name_injective : Function.Injective name := fun a b h =>
  List.inj_on_of_nodup_map nodup_names (mem_all a) (mem_all b) h

end Tag

theorem TokenClass.name_injective : Function.Injective TokenClass.name := by
  intro a b h
  cases a <;> cases b <;> first | rfl | exact absurd h (by decide)

/-- **A range is determined by the string that stands for it**: its numbers end at the colons. -/
theorem LineRange.show_injective : Function.Injective LineRange.show := by
  rintro ⟨a, b, c, d⟩ ⟨a', b', c', d'⟩ h
  have hchars := congrArg String.toList h
  simp only [LineRange.show, String.toList_append, List.append_assoc] at hchars
  obtain ⟨rfl, hb⟩ := Json.readOff_number a a' _ _ (by simp) (by simp) hchars
  obtain ⟨rfl, hc⟩ := Json.readOff_number b b' _ _ (by simp) (by simp) (List.append_cancel_left hb)
  obtain ⟨rfl, hd⟩ := Json.readOff_number c c' _ _ (by simp) (by simp) (List.append_cancel_left hc)
  obtain rfl := (Json.readOff_number d).eq (List.append_cancel_left hd)
  rfl

/-! ## Fields -/

namespace Json

/-- The value of the field of an object with a given name. -/
def field? (name : String) : Json → Option Json
  | .object fields => (fields.find? (·.name = name)).map JsonField.value
  | _ => none

end Json

/-- Two values that are left out when they are empty are written the same if what is found of them is
the same. -/
theorem eq_of_leftOut {α β : Type} {empty : α → Bool} (write : α → β)
    (hempty : ∀ x y, empty x = true → empty y = true → write x = write y) {x y : α}
    {found : Option β} (hx : found = if empty x then none else some (write x))
    (hy : found = if empty y then none else some (write y)) : write x = write y := by
  by_cases hxe : empty x = true <;> by_cases hye : empty y = true
  · exact hempty x y hxe hye
  · simp [hx, hxe, hye] at hy
  · simp [hx, hxe, hye] at hy
  · simpa [hx, hxe, hye] using hy

theorem eq_of_leftOut_nil {α β : Type} (write : List α → β) {xs ys : List α}
    {found : Option β}
    (hx : found = if xs.isEmpty then none else some (write xs))
    (hy : found = if ys.isEmpty then none else some (write ys)) : write xs = write ys :=
  eq_of_leftOut write
    (fun xs ys hx hy => by rw [List.isEmpty_iff.1 hx, List.isEmpty_iff.1 hy]) hx hy

/-! ## Leaf texts -/

namespace LeafToken

theorem field?_value (token : LeafToken) : token.toJson.field? "value" =
    if token.value.isEmpty then none else some (.string token.value) := by
  unfold toJson
  split <;> rfl

theorem field?_line (token : LeafToken) : token.toJson.field? "line" = some (.number token.line) := by
  unfold toJson
  split <;> rfl

theorem field?_column (token : LeafToken) :
    token.toJson.field? "column" = some (.number token.column) := by
  unfold toJson
  split <;> rfl

/-- **The text of a leaf is determined by its JSON value**, though an empty text is left out. -/
theorem toJson_injective : Function.Injective toJson := by
  intro a b h
  have hvalue : Json.string a.value = .string b.value :=
    eq_of_leftOut Json.string
      (fun x y hx hy => by rw [String.isEmpty_iff.1 hx, String.isEmpty_iff.1 hy])
      (field?_value a) (h ▸ field?_value b)
  have hline : some (Json.number a.line) = some (.number b.line) := by
    rw [← field?_line, ← field?_line, h]
  have hcolumn : some (Json.number a.column) = some (.number b.column) := by
    rw [← field?_column, ← field?_column, h]
  cases a
  cases b
  simp_all

end LeafToken

/-! ## Trees -/

namespace Node

mutual

/-- **A tree without the bytes it spans.** -/
def withoutSpans : Node → Node
  | ⟨tags, token, label, children, _, _⟩ => ⟨tags, token, label, withoutSpansAll children, 0, 0⟩

/-- Several trees without the bytes they span. -/
def withoutSpansAll : List Node → List Node
  | [] => []
  | node :: rest => node.withoutSpans :: withoutSpansAll rest

end

mutual

/-- The bytes spanned by the nodes are not written. -/
theorem toJson_withoutSpans : (node : Node) → node.withoutSpans.toJson = node.toJson
  | ⟨tags, token, label, children, start, stop⟩ => by
    have hempty : (withoutSpansAll children).isEmpty = children.isEmpty := by
      cases children <;> rfl
    simp only [withoutSpans, toJson, toJsonAll_withoutSpansAll children, hempty]

theorem toJsonAll_withoutSpansAll : (nodes : List Node) →
    toJsonAll (withoutSpansAll nodes) = toJsonAll nodes
  | [] => rfl
  | node :: rest => by
    rw [withoutSpansAll, toJsonAll, toJsonAll, toJson_withoutSpans node,
      toJsonAll_withoutSpansAll rest]

end

section Fields

variable (node : Node)

theorem field?_kinds : node.toJson.field? "kinds" =
    if node.tags.isEmpty then none
    else some (.array (node.tags.map fun tag => .string tag.name)) := by
  obtain ⟨_ | ⟨tag, tags⟩, _ | token, label, _ | ⟨child, children⟩, start, stop⟩ := node <;> rfl

theorem field?_token : node.toJson.field? "token" = node.token.map LeafToken.toJson := by
  obtain ⟨_ | ⟨tag, tags⟩, _ | token, label, _ | ⟨child, children⟩, start, stop⟩ := node <;> rfl

theorem field?_nativeNode : node.toJson.field? "nativeNode" = some (.string node.label) := by
  obtain ⟨_ | ⟨tag, tags⟩, _ | token, label, _ | ⟨child, children⟩, start, stop⟩ := node <;> rfl

theorem field?_children : node.toJson.field? "children" =
    if node.children.isEmpty then none else some (.array (toJsonAll node.children)) := by
  obtain ⟨_ | ⟨tag, tags⟩, _ | token, label, _ | ⟨child, children⟩, start, stop⟩ := node <;> rfl

end Fields

section Equal

variable {a b : Node}

theorem tags_eq_of_toJson (h : a.toJson = b.toJson) : a.tags = b.tags := by
  have hkinds := eq_of_leftOut_nil
    (fun tags => Json.array (tags.map fun tag => .string (Tag.name tag)))
    (field?_kinds a) (h ▸ field?_kinds b)
  have hinj : Function.Injective fun tag => Json.string (Tag.name tag) := fun x y hxy =>
    Tag.name_injective (Json.string.inj hxy)
  exact List.map_injective_iff.2 hinj (Json.array.inj hkinds)

theorem token_eq_of_toJson (h : a.toJson = b.toJson) : a.token = b.token := by
  have hmap : a.token.map LeafToken.toJson = b.token.map LeafToken.toJson := by
    rw [← field?_token, ← field?_token, h]
  exact Option.map_injective LeafToken.toJson_injective hmap

theorem label_eq_of_toJson (h : a.toJson = b.toJson) : a.label = b.label := by
  have hsome : some (Json.string a.label) = some (.string b.label) := by
    rw [← field?_nativeNode, ← field?_nativeNode, h]
  exact Json.string.inj (Option.some.inj hsome)

theorem toJsonAll_children_eq_of_toJson (h : a.toJson = b.toJson) :
    toJsonAll a.children = toJsonAll b.children :=
  Json.array.inj (eq_of_leftOut_nil (fun nodes => Json.array (toJsonAll nodes))
    (field?_children a) (h ▸ field?_children b))

end Equal

mutual

theorem withoutSpans_eq_of_toJson :
    (a b : Node) → a.toJson = b.toJson → a.withoutSpans = b.withoutSpans
  | ⟨tags, token, label, children, start, stop⟩, ⟨tags', token', label', children', start', stop'⟩,
      h => by
    obtain rfl : tags = tags' := tags_eq_of_toJson h
    obtain rfl : token = token' := token_eq_of_toJson h
    obtain rfl : label = label' := label_eq_of_toJson h
    rw [withoutSpans, withoutSpans, withoutSpansAll_eq_of_toJsonAll children children'
      (toJsonAll_children_eq_of_toJson h)]

theorem withoutSpansAll_eq_of_toJsonAll : (nodes nodes' : List Node) →
    toJsonAll nodes = toJsonAll nodes' → withoutSpansAll nodes = withoutSpansAll nodes'
  | [], [], _ => rfl
  | [], node :: rest, h => by simp [toJsonAll] at h
  | node :: rest, [], h => by simp [toJsonAll] at h
  | node :: rest, node' :: rest', h => by
    rw [toJsonAll, toJsonAll, List.cons.injEq] at h
    rw [withoutSpansAll, withoutSpansAll, withoutSpans_eq_of_toJson node node' h.1,
      withoutSpansAll_eq_of_toJsonAll rest rest' h.2]

end

/-- **Two trees have one JSON value** exactly if they differ in the bytes they span only. -/
theorem toJson_eq_iff (a b : Node) : a.toJson = b.toJson ↔ a.withoutSpans = b.withoutSpans := by
  refine ⟨withoutSpans_eq_of_toJson a b, fun h => ?_⟩
  rw [← toJson_withoutSpans a, ← toJson_withoutSpans b, h]

end Node

/-! ## Tables and documents -/

theorem CommentEntry.toJson_injective : Function.Injective CommentEntry.toJson := by
  rintro ⟨text, content, range, contentRange⟩ ⟨text', content', range', contentRange'⟩ h
  simp only [toJson, Json.object.injEq, List.cons.injEq, JsonField.mk.injEq, Json.string.injEq,
    true_and, and_true] at h
  obtain ⟨rfl, rfl, hrange, hcontent⟩ := h
  rw [LineRange.show_injective hrange, LineRange.show_injective hcontent]

theorem TokenEntry.toJson_injective : Function.Injective TokenEntry.toJson := by
  rintro ⟨text, range, type⟩ ⟨text', range', type'⟩ h
  simp only [toJson, Json.object.injEq, List.cons.injEq, JsonField.mk.injEq, Json.string.injEq,
    true_and, and_true] at h
  obtain ⟨rfl, hrange, htype⟩ := h
  rw [LineRange.show_injective hrange, TokenClass.name_injective htype]

namespace Document

variable {d d' : Document}

theorem toJson_eq_iff :
    d.toJson = d'.toJson ↔ d.tables = d'.tables ∧ d.tree.toJson = d'.tree.toJson := by
  simp [toJson]

theorem tables_eq_iff : d.tables = d'.tables ↔ d.comments = d'.comments ∧ d.tokens = d'.tokens := by
  have hcomments := List.map_injective_iff.2 CommentEntry.toJson_injective
  have htokens := List.map_injective_iff.2 TokenEntry.toJson_injective
  simp [tables, hcomments.eq_iff, htokens.eq_iff]

/-- **A document is determined by what is written of it**, however different JSON values are told
apart: two documents are written the same exactly if their tables are the same and their trees differ
in the bytes they span only. -/
theorem written_eq_iff {write : Json → String} (hwrite : Function.Injective write)
    (d d' : Document) : write d.toJson = write d'.toJson ↔
      d.comments = d'.comments ∧ d.tokens = d'.tokens ∧
        d.tree.withoutSpans = d'.tree.withoutSpans := by
  calc write d.toJson = write d'.toJson
    _ ↔ d.toJson = d'.toJson := hwrite.eq_iff
    _ ↔ d.tables = d'.tables ∧ d.tree.toJson = d'.tree.toJson := toJson_eq_iff
    _ ↔ (d.comments = d'.comments ∧ d.tokens = d'.tokens) ∧
          d.tree.withoutSpans = d'.tree.withoutSpans :=
        and_congr tables_eq_iff (Node.toJson_eq_iff d.tree d'.tree)
    _ ↔ _ := and_assoc

/-- **A document is determined by its text**, which is indented JSON. -/
theorem text_determines (d d' : Document) : d.text = d'.text ↔
    d.comments = d'.comments ∧ d.tokens = d'.tokens ∧
      d.tree.withoutSpans = d'.tree.withoutSpans :=
  written_eq_iff Json.pretty_injective d d'

end Document

end GoTree
