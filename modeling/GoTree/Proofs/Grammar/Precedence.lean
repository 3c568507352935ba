import GoTree.Proofs.Grammar.SteadyRun
import GoTree.Proofs.Mapping.Document

/-!
# Precedence and associativity

Binary operators group by precedence and to the left.  An expression with binary operators at its
top is a **chain**: operands with operators between them, in the order of the source.  There is one
way to group a chain by precedence and to the left, which is to split it again and again at the
rightmost of its loosest operators, and this is the tree that is read.

## Main definitions

* `Expr.topOp?`: the binary operator at the top of an expression
* `Expr.Grouped`: grouped by precedence and to the left
* `Chain`, `Expr.chain`: operands and the operators between them
* `Chain.loosest`, `Chain.group`: grouping by splitting at the rightmost loosest operator

## Main results

* `Expr.Grouped.eq_group`: what is grouped is the grouping of its chain
* `parse_grouped`: the expressions of a file are grouped by precedence and to the left
-/

namespace GoTree

open Phrase

/-! ### The operator at the top -/

/-- The binary operator at the top of an expression. -/
def Expr.topOp? : Expr → Option BinaryOp
  | .binary _ _ op _ => some op
  | _ => none

namespace Phrase.Derived

variable {header : Bool} {least : Nat} {x y : Expr} {pos : Offset} {op : BinaryOp}

theorem topOp?_typeName (h : (Phrase.typeName x).Derived) : x.topOp? = none := by
  cases h <;> rfl

theorem topOp?_type (h : (Phrase.type x).Derived) : x.topOp? = none := by
  cases h with
  | named hname => exact hname.topOp?_typeName
  | _ => rfl

/-- The operator at the top of an expression binds tightly enough. -/
theorem le_topOp (h : (Phrase.expr header least x).Derived) (hop : x.topOp? = some op) :
    least ≤ op.precedence := by
  cases h with
  | binary hbinds hleft hright =>
    obtain rfl := Option.some.inj hop
    exact hbinds
  | typeOperand htype =>
    rw [htype.topOp?_type] at hop
    simp at hop
  | _ => simp [Expr.topOp?] at hop

/-- What an operator stands before has no binary operator at its top. -/
theorem topOp?_operand (h : (Phrase.expr header prefixLevel x).Derived) : x.topOp? = none := by
  rcases htop : x.topOp? with _ | op
  · rfl
  · exact absurd (h.le_topOp htop) (Nat.not_le.2 (Grammar.precedence_lt_prefixLevel op))

end Phrase.Derived

/-! ### Grouped expressions -/

/-- **Grouped by precedence and to the left:** the operator at the top of a left operand binds at
least as tightly as the operator it is an operand of, and that of a right operand more tightly. -/
def Expr.Grouped : Expr → Prop
  | .binary x _ op y =>
    ((∀ left ∈ x.topOp?, op.precedence ≤ left.precedence) ∧
      ∀ right ∈ y.topOp?, op.precedence < right.precedence) ∧ x.Grouped ∧ y.Grouped
  | _ => True

namespace Expr.Derived

variable {x y : Expr} {pos : Offset} {op : BinaryOp}

/-- The operands of a binary operator in the grammar. -/
theorem operands (h : (Expr.binary x pos op y).Derived) :
    ∃ header, (Phrase.expr header op.precedence x).Derived ∧
      (Phrase.expr header (op.precedence + 1) y).Derived := by
  obtain ⟨header, least, h⟩ := h.exists_expr rfl
  cases h with
  | binary hbinds hleft hright => exact ⟨header, hleft, hright⟩
  | typeOperand htype =>
    cases htype with
    | named hname => cases hname

theorem left (h : (Expr.binary x pos op y).Derived) : x.Derived :=
  let ⟨_, hleft, _⟩ := h.operands
  hleft.expr rfl

theorem right (h : (Expr.binary x pos op y).Derived) : y.Derived :=
  let ⟨_, _, hright⟩ := h.operands
  hright.expr rfl

/-- The operand of an operator before it. -/
theorem unaryOperand {op : UnaryOp} (h : (Expr.unary pos op x).Derived) : x.topOp? = none := by
  obtain ⟨header, least, h⟩ := h.exists_expr rfl
  cases h with
  | unary hbinds hoperand => exact hoperand.topOp?_operand
  | typeOperand htype =>
    cases htype with
    | named hname => cases hname

theorem starOperand (h : (Expr.star pos x).Derived) : x.topOp? = none := by
  obtain ⟨header, least, h⟩ := h.exists_expr rfl
  cases h with
  | star hbinds hoperand => exact hoperand.topOp?_operand
  | typeOperand htype =>
    cases htype with
    | pointerType hbase => exact hbase.topOp?_type
    | named hname => cases hname

end Expr.Derived

/-- **What the grammar reads is grouped.** -/
theorem Expr.Derived.grouped {x : Expr} (h : x.Derived) : x.Grouped := by
  fun_induction Expr.Grouped x with
  | case1 x pos op y ihx ihy =>
    obtain ⟨header, hleft, hright⟩ := h.operands
    exact ⟨⟨fun left htop => hleft.le_topOp htop, fun right htop => hright.le_topOp htop⟩,
      ihx h.left, ihy h.right⟩
  | case2 => trivial

/-! ### Chains -/

/-- An operator and the operand after it. -/
structure Link where
  opPos : Offset
  op : BinaryOp
  operand : Expr

/-- **Operands with operators between them**, in the order of the source. -/
structure Chain where
  first : Expr
  links : List Link

/-- The chain an expression is a grouping of; an expression without a binary operator at its top is
the only operand of its chain. -/
def Expr.chain : Expr → Chain
  | .binary x opPos op y =>
    ⟨x.chain.first, x.chain.links ++ ⟨opPos, op, y.chain.first⟩ :: y.chain.links⟩
  | e => ⟨e, []⟩

namespace Chain

/-- The tokens a chain records, in the order of the source. -/
def recorded (chain : Chain) : List Recorded :=
  chain.first.recorded ++ chain.links.flatMap fun link =>
    Recorded.symbol link.opPos link.op.symbol :: link.operand.recorded

/-- **The rightmost of the loosest operators**, with the links before and after it. -/
def loosest : List Link → Option (List Link × Link × List Link)
  | [] => none
  | link :: rest =>
    match loosest rest with
    | none => some ([], link, [])
    | some (before, found, after) =>
      if link.op.precedence < found.op.precedence then some ([], link, rest)
      else some (link :: before, found, after)

/-- The parts around the rightmost of the loosest operators. -/
structure IsLoosest (links before : List Link) (found : Link) (after : List Link) : Prop where
  append : links = before ++ found :: after
  le : ∀ link ∈ before, found.op.precedence ≤ link.op.precedence
  lt : ∀ link ∈ after, found.op.precedence < link.op.precedence

theorem loosest_eq_none_iff {links : List Link} : loosest links = none ↔ links = [] := by
  cases links with
  | nil => simp [loosest]
  | cons link rest =>
    rw [loosest]
    split
    · simp
    · split <;> simp

theorem isLoosest_of_loosest {links before after : List Link} {found : Link}
    (h : loosest links = some (before, found, after)) : IsLoosest links before found after := by
  induction links generalizing before found after with
  | nil => simp [loosest] at h
  | cons link rest ih =>
    rw [loosest] at h
    split at h
    · rename_i hnone
      obtain ⟨rfl, rfl, rfl⟩ : [] = before ∧ link = found ∧ [] = after := by simpa using h
      rw [loosest_eq_none_iff.1 hnone]
      exact ⟨rfl, by simp, by simp⟩
    · rename_i before' found' after' hrest
      obtain ⟨happend, hle, hlt⟩ := ih hrest
      split at h
      · -- the first operator is looser than the loosest of the rest
        rename_i htight
        obtain ⟨rfl, rfl, rfl⟩ : [] = before ∧ link = found ∧ rest = after := by simpa using h
        refine ⟨rfl, by simp, fun other hother => ?_⟩
        rw [happend, List.mem_append, List.mem_cons] at hother
        rcases hother with hbefore | rfl | hafter
        · exact Nat.lt_of_lt_of_le htight (hle other hbefore)
        · exact htight
        · exact Nat.lt_trans htight (hlt other hafter)
      · -- the loosest of the rest also is the loosest of all, and still the rightmost
        rename_i hloose
        obtain ⟨rfl, rfl, rfl⟩ : link :: before' = before ∧ found' = found ∧ after' = after := by
          simpa using h
        refine ⟨by rw [happend, List.cons_append], ?_, hlt⟩
        exact List.forall_mem_cons.2 ⟨Nat.le_of_not_lt hloose, hle⟩

theorem IsLoosest.loosest_eq {links before after : List Link} {found : Link}
    (h : IsLoosest links before found after) : loosest links = some (before, found, after) := by
  obtain ⟨rfl, hle, hlt⟩ := h
  induction before with
  | nil =>
    rw [List.nil_append, loosest]
    split
    · rename_i hnone
      rw [loosest_eq_none_iff.1 hnone]
    · rename_i before' found' after' hrest
      have hmem : found' ∈ after := by
        rw [(isLoosest_of_loosest hrest).append]
        simp
      rw [if_pos (hlt found' hmem)]
  | cons link before ih =>
    rw [List.forall_mem_cons] at hle
    rw [List.cons_append, loosest, ih hle.2]
    exact if_neg (Nat.not_lt.2 hle.1)

/-- **A chain grouped** by splitting it again and again at the rightmost of its loosest
operators. -/
def group (first : Expr) (links : List Link) : Expr :=
  match _h : loosest links with
  | none => first
  | some (before, link, after) =>
    .binary (group first before) link.opPos link.op (group link.operand after)
termination_by links.length
decreasing_by
  all_goals
    rw [(isLoosest_of_loosest _h).append, List.length_append, List.length_cons]
    omega

theorem group_nil (first : Expr) : group first [] = first := by
  rw [group]
  rfl

theorem IsLoosest.group_eq {first : Expr} {links before after : List Link} {link : Link}
    (h : IsLoosest links before link after) : group first links =
      .binary (group first before) link.opPos link.op (group link.operand after) := by
  rw [group]
  split
  · rename_i hnone
    rw [h.loosest_eq] at hnone
    simp at hnone
  · rename_i hsome
    rw [h.loosest_eq] at hsome
    obtain ⟨rfl, rfl, rfl⟩ := hsome
    rfl

end Chain

namespace Expr

/-- A chain records what the expression records. -/
theorem recorded_chain (x : Expr) : x.chain.recorded = x.recorded := by
  fun_induction Expr.chain x with
  | case1 x opPos op y ihx ihy =>
    rw [Expr.recorded, ← ihx, ← ihy]
    simp [Chain.recorded]
  | case2 => simp [Chain.recorded]

/-- Nothing in a grouped expression is looser than the operator at its top. -/
theorem Grouped.le_links {x : Expr} {k : Nat} (h : x.Grouped)
    (htop : ∀ top ∈ x.topOp?, k ≤ top.precedence) :
    ∀ link ∈ x.chain.links, k ≤ link.op.precedence := by
  fun_induction Expr.chain x with
  | case1 x opPos op y ihx ihy =>
    obtain ⟨⟨hleft, hright⟩, hx, hy⟩ := h
    have hk : k ≤ op.precedence := htop op rfl
    have hlinks := ihx hx fun left hl => Nat.le_trans hk (hleft left hl)
    have hlinks' := ihy hy fun right hr => Nat.le_trans hk (Nat.le_of_lt (hright right hr))
    exact List.forall_mem_append.2 ⟨hlinks, List.forall_mem_cons.2 ⟨hk, hlinks'⟩⟩
  | case2 => simp

/-- **What is grouped is the grouping of its chain.** -/
theorem Grouped.eq_group {x : Expr} (h : x.Grouped) :
    x = Chain.group x.chain.first x.chain.links := by
  fun_induction Expr.chain x with
  | case1 x opPos op y ihx ihy =>
    obtain ⟨⟨hleft, hright⟩, hx, hy⟩ := h
    -- nothing to the left of the top operator is looser, and all to its right is tighter
    have hloosest : Chain.IsLoosest (x.chain.links ++ ⟨opPos, op, y.chain.first⟩ :: y.chain.links)
        x.chain.links ⟨opPos, op, y.chain.first⟩ y.chain.links :=
      ⟨rfl, hx.le_links hleft, hy.le_links hright⟩
    calc Expr.binary x opPos op y
        = .binary (Chain.group x.chain.first x.chain.links) opPos op
            (Chain.group y.chain.first y.chain.links) := by rw [← ihx hx, ← ihy hy]
      _ = _ := hloosest.group_eq.symm
  | case2 => exact (Chain.group_nil _).symm

/-- Only one grouping of a chain is grouped by precedence and to the left. -/
theorem Grouped.eq_of_chain_eq {x y : Expr} (hx : x.Grouped) (hy : y.Grouped)
    (h : y.chain = x.chain) : y = x := by
  rw [hy.eq_group, h, ← hx.eq_group]

end Expr

/-! ### Files -/

/-- **The expressions of a file are grouped by precedence and to the left.**  The left operand of a
binary operator has at its top an operator that binds at least as tightly, and the right operand
one that binds more tightly; the operand of an operator before it has none.  So every expression is
the only grouping of its operands and operators in the order of the source: the one made by splitting
at the rightmost of the loosest operators. -/
theorem parse_grouped {t : Text} {file : File} (h : parse t = .ok file) :
    ∀ e ∈ file.exprs,
      (∀ x opPos op y, e = .binary x opPos op y →
        (∀ left ∈ x.topOp?, op.precedence ≤ left.precedence) ∧
        ∀ right ∈ y.topOp?, op.precedence < right.precedence) ∧
      (∀ opPos op x, e = .unary opPos op x → x.topOp? = none) ∧
      (∀ star x, e = .star star x → x.topOp? = none) ∧
      e.chain.recorded = e.recorded ∧
      e = Chain.group e.chain.first e.chain.links ∧
      ∀ other : Expr, other.Grouped → other.chain = e.chain → other = e := by
  intro e he
  have hderived := (derived_of_parse h).of_mem_exprs he
  have hgrouped := hderived.grouped
  refine ⟨?_, ?_, ?_, e.recorded_chain, hgrouped.eq_group, fun other hother hchain =>
    hgrouped.eq_of_chain_eq hother hchain⟩
  · rintro x opPos op y rfl
    exact hgrouped.1
  · rintro opPos op x rfl
    exact hderived.unaryOperand
  · rintro star x rfl
    exact hderived.starOperand

/-- Two operators of one precedence around a tighter one: the later of the two is at the top. -/
theorem parse_grouped_mixed :
    ∃ file e, parse "package p\nvar x = a - b*c - d\n".toList = .ok file ∧ e ∈ file.exprs ∧
      e.chain.links.map Link.op = [.subtract, .multiply, .subtract] ∧
      (∀ x opPos op y, e = .binary x opPos op y →
        (∀ left ∈ x.topOp?, op.precedence ≤ left.precedence) ∧
        ∀ right ∈ y.topOp?, op.precedence < right.precedence) ∧
      e = Chain.group e.chain.first e.chain.links := by
  obtain ⟨file, hparse, hany⟩ :
      ∃ file, parse "package p\nvar x = a - b*c - d\n".toList = .ok file ∧
        (file.exprs.any fun e =>
          e.chain.links.map Link.op == [.subtract, .multiply, .subtract]) = true := by
    refine exists_ok_and_of_any ?_
    decide +kernel
  obtain ⟨e, he, hlinks⟩ := List.any_eq_true.1 hany
  obtain ⟨hbinary, -, -, -, hgroup, -⟩ := parse_grouped hparse e he
  exact ⟨file, e, hparse, he, by simpa using hlinks, hbinary, hgroup⟩

end GoTree
