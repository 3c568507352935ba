import GoTree.Mapping.Plan.Basic
import GoTree.Proofs.Mapping.Gap

/-!
# Realized plans

What a realized plan is made of, for any plan and any text.  Its leaves come from three places: the
comments of the file, the tokens found in gaps, and the tokens of the plan.  They stand in a composed
tree, because every child is appended after a gap that has been filled.

## Main definitions

* `Plan.Leaf`, `Plan.leaves`: the tokens of a plan, in order
* `Mapping.Origin`: the places a leaf comes from

## Main results

* `Mapping.append_eq_ok`, `Mapping.realizeAll_cons_eq_ok`: what appending and realizing do
* `Mapping.siblings_append`: appending a child keeps children that may stand in a group
* `Mapping.composed_realize`, `Mapping.siblings_realizeAll`: realizing plans composes trees
-/

namespace GoTree

/-! ### The tokens of a plan -/

/-- A token of a plan. -/
structure Plan.Leaf where
  tags : List Tag
  pos : Offset
  text : String
  label : String
deriving DecidableEq, Repr

namespace Plan

mutual

/-- **The tokens of a plan**, in order. -/
def leaves : Plan → List Leaf
  | .nothing => []
  | .token tags pos text label => [⟨tags, pos, text, label⟩]
  | .group _ _ parts => leavesAll parts

/-- The tokens of several plans, plan after plan. -/
def leavesAll : List Plan → List Leaf
  | [] => []
  | plan :: rest => leaves plan ++ leavesAll rest

end

@[simp]
theorem leaves_nothing : leaves .nothing = [] := rfl

@[simp]
theorem leaves_token (tags : List Tag) (pos : Offset) (text label : String) :
    leaves (.token tags pos text label) = [⟨tags, pos, text, label⟩] := rfl

@[simp]
theorem leaves_group (tags : List Tag) (label : String) (parts : List Plan) :
    leaves (.group tags label parts) = leavesAll parts := rfl

@[simp]
theorem leavesAll_nil : leavesAll [] = [] := rfl

@[simp]
theorem leavesAll_cons (plan : Plan) (rest : List Plan) :
    leavesAll (plan :: rest) = leaves plan ++ leavesAll rest := rfl

@[simp]
theorem leavesAll_append (plans rest : List Plan) :
    leavesAll (plans ++ rest) = leavesAll plans ++ leavesAll rest := by
  induction plans with
  | nil => rfl
  | cons plan plans ih => simp [ih]

end Plan

namespace Mapping

variable {m : Mapping}

/-! ### Where leaves come from -/

/-- The leaf that a token of a plan must make. -/
def expectLeaf (m : Mapping) (leaf : Plan.Leaf) : Except MapError (Option Node) :=
  m.expect leaf.tags leaf.pos leaf.text leaf.label

/-- **The places a leaf comes from**, given the comments of the file and the tokens of its plan. -/
inductive Origin (m : Mapping) (comments : List Node) (planned : List Plan.Leaf) : Node → Prop
  | comment {node : Node} (mem : node ∈ comments) : Origin m comments planned node
  | piece {node : Node} (made : m.IsPiece node) : Origin m comments planned node
  | planned {node : Node} {leaf : Plan.Leaf} (mem : leaf ∈ planned)
      (made : m.expectLeaf leaf = .ok (some node)) : Origin m comments planned node

theorem isSlice_of_expect {tags : List Tag} {pos : Offset} {text label : String} {node : Node}
    (h : m.expect tags pos text label = .ok (some node)) : node.IsSlice m.text :=
  isSlice_of_leafAt (expect_eq_ok_some h).1

/-- **What appending a child does:** a first child gets nothing before it, and every other one the
gap between the last child and it, which may be empty but not negative. -/
theorem append_eq_ok {children children' : List Node} {child : Node}
    {cursor cursor' : CommentCursor}
    (h : m.append children (some child) cursor = .ok (children', cursor')) :
    (children = [] ∧ children' = [child] ∧ cursor' = cursor) ∨
      ∃ last gap, children.getLast? = some last ∧ last.stop ≤ child.start ∧
        m.fillGap last.stop child.start cursor = .ok (gap, cursor') ∧
        children' = children ++ gap ++ [child] := by
  cases hlast : children.getLast? with
  | none =>
    obtain ⟨rfl, rfl⟩ : [child] = children' ∧ cursor = cursor' := by
      simpa [append, hlast] using h
    exact .inl ⟨List.getLast?_eq_none_iff.1 hlast, rfl, rfl⟩
  | some last =>
    rw [append_some_eq m hlast] at h
    split at h
    · cases h
    · rename_i hle
      obtain ⟨⟨gap, cursor₁⟩, hgap, h⟩ := exists_of_bind_eq_ok h
      obtain ⟨rfl, rfl⟩ := Prod.mk.inj (Except.ok.inj h)
      exact .inr ⟨last, gap, rfl, Nat.not_lt.1 hle, hgap, rfl⟩

section

variable {comments : List Node} {planned : List Plan.Leaf}
  (hcomments : ∀ comment ∈ comments, comment.IsSlice m.text)

include hcomments

/-- Wherever a leaf comes from, it holds the text it spans. -/
theorem Origin.isSlice (node : Node) (h : m.Origin comments planned node) :
    node.IsSlice m.text := by
  cases h with
  | comment mem => exact hcomments node mem
  | piece made => exact made.isSlice.1
  | planned _ made => exact isSlice_of_expect made

/-! ### Appending -/

/-- Between two nodes of a composed tree a gap is filled with leaves of known origin. -/
theorem origin_fillGap (planned : List Plan.Leaf) {start stop : Nat}
    {cursor cursor' : CommentCursor} {gap : List Node}
    (hcursor : cursor.toList = comments) (hstart : m.text.IsBoundary start)
    (hstop : m.text.IsBoundary stop) (hle : start ≤ stop)
    (h : m.fillGap start stop cursor = .ok (gap, cursor')) :
    Fills m.text start gap stop ∧ cursor'.toList = comments ∧
      ∀ node ∈ gap, m.Origin comments planned node := by
  obtain ⟨hfills, hkept, horigin⟩ := fills_fillGap (hcursor ▸ hcomments) hstart hstop hle h
  refine ⟨hfills, hkept.trans hcursor, ?_⟩
  intro node hnode
  rcases horigin node hnode with hmem | hpiece
  · exact .comment (hcursor ▸ hmem)
  · exact .piece hpiece

/-- **Appending a child** keeps the children before it and puts the child last; what comes between
is of known origin. -/
theorem siblings_append {children children' : List Node} {child : Node}
    {cursor cursor' : CommentCursor} (hcursor : cursor.toList = comments)
    (hchildren : Siblings m.text (m.Origin comments planned) children)
    (hchild : m.text.IsBoundary child.start)
    (h : m.append children (some child) cursor = .ok (children', cursor')) :
    cursor'.toList = comments ∧
      ∃ gap, children' = children ++ gap ++ [child] ∧
        (∀ node ∈ gap, m.Origin comments planned node) ∧
        children'.IsChain fun a b => m.text.BlankBetween a.stop b.start := by
  rcases append_eq_ok h with ⟨rfl, rfl, rfl⟩ | ⟨last, gap, hlast, hle, hgap, rfl⟩
  · exact ⟨hcursor, [], by simp, by simp, .singleton child⟩
  · have hmem := List.mem_of_getLast? hlast
    have hlast' := (hchildren.composed last hmem).isBoundary (Origin.isSlice hcomments)
    obtain ⟨hfills, hkept, horigin⟩ :=
      origin_fillGap hcomments planned hcursor hlast'.2 hchild hle hgap
    refine ⟨hkept, gap, rfl, horigin, ?_⟩
    exact Fills.isChain_append hlast hchildren.chain hfills

end

/-! ### Realizing plans -/

theorem realize_nothing_eq_ok {result : Option Node} {cursor cursor' : CommentCursor} :
    m.realize .nothing cursor = .ok (result, cursor') ↔ result = none ∧ cursor' = cursor := by
  simp [realize, eq_comm]

/-- A token is realized by the leaf that is expected. -/
theorem realize_token_eq_ok {tags : List Tag} {pos : Offset} {text label : String}
    {result : Option Node} {cursor cursor' : CommentCursor} :
    m.realize (.token tags pos text label) cursor = .ok (result, cursor') ↔
      m.expect tags pos text label = .ok result ∧ cursor' = cursor := by
  rw [realize]
  cases m.expect tags pos text label <;> simp [eq_comm]

/-- A group is realized by its parts. -/
theorem realize_group_eq_ok {tags : List Tag} {label : String} {parts : List Plan}
    {result : Option Node} {cursor cursor' : CommentCursor} :
    m.realize (.group tags label parts) cursor = .ok (result, cursor') ↔
      ∃ children, m.realizeAll parts [] cursor = .ok (children, cursor') ∧
        result = Node.group? tags label children := by
  rw [realize]
  cases hparts : m.realizeAll parts [] cursor with
  | error e => simp
  | ok made =>
    obtain ⟨children, cursor''⟩ := made
    simp [eq_comm, and_comm]

/-- Realizing a plan before others appends its node first. -/
theorem realizeAll_cons_eq_ok {plan : Plan} {rest : List Plan} {children children' : List Node}
    {cursor cursor' : CommentCursor} :
    m.realizeAll (plan :: rest) children cursor = .ok (children', cursor') ↔
      ∃ result cursor₁ children₁ cursor₂, m.realize plan cursor = .ok (result, cursor₁) ∧
        m.append children result cursor₁ = .ok (children₁, cursor₂) ∧
        m.realizeAll rest children₁ cursor₂ = .ok (children', cursor') := by
  rw [realizeAll]
  cases hplan : m.realize plan cursor with
  | error e => simp
  | ok made =>
    obtain ⟨result, cursor₁⟩ := made
    cases happend : m.append children result cursor₁ with
    | error e => simp [happend]
    | ok grown =>
      obtain ⟨children₁, cursor₂⟩ := grown
      simp [happend]

/-- **Plans are realized one after the other.** -/
theorem realizeAll_append_eq_ok {plans rest : List Plan} {children children' : List Node}
    {cursor cursor' : CommentCursor} :
    m.realizeAll (plans ++ rest) children cursor = .ok (children', cursor') ↔
      ∃ children₁ cursor₁, m.realizeAll plans children cursor = .ok (children₁, cursor₁) ∧
        m.realizeAll rest children₁ cursor₁ = .ok (children', cursor') := by
  induction plans generalizing children cursor with
  | nil => simp [realizeAll]
  | cons plan plans ih =>
    rw [List.cons_append, realizeAll_cons_eq_ok]
    simp only [realizeAll_cons_eq_ok, ih]
    constructor
    · rintro ⟨result, cursor₁, grown, cursor₂, hplan, happend, children₁, cursor₃, hplans, hrest⟩
      exact ⟨children₁, cursor₃, ⟨result, cursor₁, grown, cursor₂, hplan, happend, hplans⟩, hrest⟩
    · rintro ⟨children₁, cursor₃, ⟨result, cursor₁, grown, cursor₂, hplan, happend, hplans⟩, hrest⟩
      exact ⟨result, cursor₁, grown, cursor₂, hplan, happend, children₁, cursor₃, hplans, hrest⟩

/-- Realizing one plan appends its node. -/
theorem realizeAll_singleton_eq_ok {plan : Plan} {children children' : List Node}
    {cursor cursor' : CommentCursor} :
    m.realizeAll [plan] children cursor = .ok (children', cursor') ↔
      ∃ result cursor₁, m.realize plan cursor = .ok (result, cursor₁) ∧
        m.append children result cursor₁ = .ok (children', cursor') := by
  rw [realizeAll_cons_eq_ok]
  simp [realizeAll]

section

variable {comments : List Node} {planned : List Plan.Leaf}
  (hcomments : ∀ comment ∈ comments, comment.IsSlice m.text)

include hcomments

mutual

/-- **Realizing a plan composes a tree** over comments, tokens of gaps and tokens of the plan, and
keeps the comments. -/
theorem composed_realize : (plan : Plan) → (hplan : ∀ leaf ∈ plan.leaves, leaf ∈ planned) →
    {cursor cursor' : CommentCursor} → {result : Option Node} →
    (hcursor : cursor.toList = comments) → (h : m.realize plan cursor = .ok (result, cursor')) →
    cursor'.toList = comments ∧
      ∀ node ∈ result, node.Composed m.text (m.Origin comments planned)
  | .nothing, _, cursor, cursor', result, hcursor, h => by
    obtain ⟨rfl, rfl⟩ := realize_nothing_eq_ok.1 h
    exact ⟨hcursor, by simp⟩
  | .token tags pos text label, hplan, cursor, cursor', result, hcursor, h => by
    obtain ⟨hleaf, rfl⟩ := realize_token_eq_ok.1 h
    refine ⟨hcursor, ?_⟩
    intro node hnode
    rw [Option.mem_def.1 hnode] at hleaf
    exact .leaf (.planned (hplan ⟨tags, pos, text, label⟩ (by simp)) hleaf)
  | .group tags label parts, hplan, cursor, cursor', result, hcursor, h => by
    obtain ⟨children, hparts, rfl⟩ := realize_group_eq_ok.1 h
    obtain ⟨hkept, hchildren, -⟩ := siblings_realizeAll parts hplan hcursor ⟨by simp, .nil⟩ hparts
    exact ⟨hkept, fun node hnode => .of_group? (Origin.isSlice hcomments) hchildren hnode⟩

/-- **Realizing plans after some children** keeps these children and appends nodes that may stand
beside them. -/
theorem siblings_realizeAll : (plans : List Plan) →
    (hplans : ∀ leaf ∈ Plan.leavesAll plans, leaf ∈ planned) →
    {children children' : List Node} → {cursor cursor' : CommentCursor} →
    (hcursor : cursor.toList = comments) →
    (hchildren : Siblings m.text (m.Origin comments planned) children) →
    (h : m.realizeAll plans children cursor = .ok (children', cursor')) →
    cursor'.toList = comments ∧ Siblings m.text (m.Origin comments planned) children' ∧
      children <+: children'
  | [], _, children, children', cursor, cursor', hcursor, hchildren, h => by
    simp only [realizeAll, Except.ok.injEq, Prod.mk.injEq] at h
    obtain ⟨rfl, rfl⟩ := h
    exact ⟨hcursor, hchildren, List.prefix_rfl⟩
  | plan :: rest, hplans, children, children', cursor, cursor', hcursor, hchildren, h => by
    rw [Plan.leavesAll_cons, List.forall_mem_append] at hplans
    -- one plan is realized and appended, and the rest goes on from there
    obtain ⟨result, cursor₁, children₁, cursor₂, hresult, happend, h⟩ := realizeAll_cons_eq_ok.1 h
    obtain ⟨hkept, hcomposed⟩ := composed_realize plan hplans.1 hcursor hresult
    cases result with
    | none =>
      obtain ⟨rfl, rfl⟩ : children = children₁ ∧ cursor₁ = cursor₂ := by
        simpa [append] using happend
      exact siblings_realizeAll rest hplans.2 hkept hchildren h
    | some node =>
      have hnode := hcomposed node rfl
      obtain ⟨hkept', gap, rfl, hgap, hchain⟩ := siblings_append hcomments hkept hchildren
        (hnode.isBoundary (Origin.isSlice hcomments)).1 happend
      obtain ⟨hkept'', hall, hpre⟩ := siblings_realizeAll rest hplans.2 hkept'
        (hchildren.append hgap hnode hchain) h
      refine ⟨hkept'', hall, ?_⟩
      rw [List.append_assoc] at hpre
      exact (List.prefix_append children (gap ++ [node])).trans hpre

end

end

end Mapping

end GoTree
