import Mathlib.Tactic.Common
import GoTree.Proofs.Syntax.Parts

/-!
# Counting constructs

All parts of a syntax tree, each as often as it stands in it, and how many of them are constructs of
one kind.  Every part is larger than its parts, whatever their places, so the parts of parts come to
an end.

## Main definitions

* `Part.weight`: the size of a construct, whatever its place
* `Part.all`, `File.parts`: everything inside a part and inside a file
* `Construct`, `Part.construct?`: the kinds of constructs that are counted
* `File.census`: how many constructs of a kind a file has

## Main results

* `Part.mem_all_iff`, `File.mem_parts_iff`: these are the parts that are inside
* `Part.induct`: what holds of a part if it holds of its parts
-/

namespace GoTree

namespace Part

/-! ### All parts -/

/-- The size of a construct, whatever its place. -/
noncomputable def weight : Part → Nat
  | .expr _ x => sizeOf x
  | .field _ f => sizeOf f
  | .fields _ list => sizeOf list
  | .signature ty => sizeOf ty
  | .block b => sizeOf b
  | .stmt s => sizeOf s
  | .caseClause clause => sizeOf clause
  | .commClause clause => sizeOf clause
  | .genDecl d => sizeOf d
  | .spec _ s => sizeOf s
  | .funcDecl d => sizeOf d

/-- Parts that are all smaller than `n`. -/
def AllLt (n : Nat) (parts : List Part) : Prop :=
  ∀ part ∈ parts, part.weight < n

namespace AllLt

variable {n : Nat} {parts more : List Part} {part : Part}

theorem nil : AllLt n [] := by simp [AllLt]

theorem cons (h : part.weight < n) (h' : AllLt n parts) : AllLt n (part :: parts) :=
  List.forall_mem_cons.2 ⟨h, h'⟩

theorem append (h : AllLt n parts) (h' : AllLt n more) : AllLt n (parts ++ more) :=
  List.forall_mem_append.2 ⟨h, h'⟩

/-- The elements of a list are smaller than the list. -/
theorem map {α : Type} [SizeOf α] {list : List α} {part : α → Part}
    (hpart : ∀ a, (part a).weight = sizeOf a) (h : sizeOf list < n) : AllLt n (list.map part) := by
  intro p hp
  obtain ⟨a, ha, rfl⟩ := List.mem_map.1 hp
  have hlt := List.sizeOf_lt_of_mem ha
  rw [hpart]
  omega

/-- What may be absent is smaller than the place for it. -/
theorem option {α : Type} [SizeOf α] {o : Option α} {part : α → Part}
    (hpart : ∀ a, (part a).weight = sizeOf a) (h : sizeOf o < n) :
    AllLt n (o.toList.map part) := by
  cases o with
  | none => exact .nil
  | some a =>
    refine .cons ?_ .nil
    rw [hpart]
    simp only [Option.some.sizeOf_spec] at h
    omega

end AllLt

theorem allLt_parts_expr (x : Expr) : AllLt (sizeOf x) x.parts := by
  cases x with
  | ident | basicLit => exact .nil
  | ellipsis pos elt => exact .option (fun _ => rfl) (by simp +arith)
  | compositeLit ty lbrace elts rbrace =>
    exact .append (.option (fun _ => rfl) (by simp +arith)) (.map (fun _ => rfl) (by simp +arith))
  | slice x lbrack low high max slice3 rbrack =>
    simp only [Expr.parts, List.map_append, List.map_cons, List.cons_append]
    exact .cons (by simp +arith [weight]) (.append (.append
      (.option (fun _ => rfl) (by simp +arith)) (.option (fun _ => rfl) (by simp +arith)))
      (.option (fun _ => rfl) (by simp +arith)))
  | typeAssert x lparen ty rparen =>
    exact .cons (by simp +arith [weight]) (.option (fun _ => rfl) (by simp +arith))
  | call callee lparen args dots rparen =>
    exact .cons (by simp +arith [weight]) (.map (fun _ => rfl) (by simp +arith))
  | arrayType lbrack len elt =>
    exact .append (.option (fun _ => rfl) (by simp +arith)) (.cons (by simp +arith [weight]) .nil)
  | _ => simp [AllLt, Expr.parts, weight] <;> omega

/-- The clauses of a switch are smaller than the switch. -/
theorem sizeOf_clauses (b : CaseBlock) : sizeOf b.clauses < sizeOf b := by
  cases b
  simp +arith

theorem allLt_parts_stmt (s : Stmt) : AllLt (sizeOf s) s.parts := by
  cases s with
  | empty | branch => exact .nil
  | assign lhs tok rhs =>
    simp only [Stmt.parts, List.map_append]
    exact .append (.map (fun _ => rfl) (by simp +arith))
      (.map (fun _ => rfl) (by simp +arith))
  | returns pos results => exact .map (fun _ => rfl) (by simp +arith)
  | ifThen pos init cond body orElse =>
    exact .append (.append (.option (fun _ => rfl) (by simp +arith))
      (.cons (by simp +arith [weight]) (.cons (by simp +arith [weight]) .nil)))
      (.option (fun _ => rfl) (by simp +arith))
  | switch pos init tag body =>
    -- the clauses of the body are parts of the statement itself
    exact .append (.append (.option (fun _ => rfl) (by simp +arith))
      (.option (fun _ => rfl) (by simp +arith)))
      (.map (fun _ => rfl) (Nat.lt_trans (sizeOf_clauses body) (by simp +arith)))
  | typeSwitch pos init guard body =>
    exact .append (.append (.option (fun _ => rfl) (by simp +arith))
      (.cons (by simp +arith [weight]) .nil))
      (.map (fun _ => rfl) (Nat.lt_trans (sizeOf_clauses body) (by simp +arith)))
  | select pos lbrace clauses rbrace => exact .map (fun _ => rfl) (by simp +arith)
  | forLoop pos init cond post body =>
    exact .append (.append (.append (.option (fun _ => rfl) (by simp +arith))
      (.option (fun _ => rfl) (by simp +arith))) (.option (fun _ => rfl) (by simp +arith)))
      (.cons (by simp +arith [weight]) .nil)
  | rangeLoop pos key value tok x body =>
    simp only [Stmt.parts, List.map_append]
    exact .append (.append (.append (.option (fun _ => rfl) (by simp +arith))
      (.option (fun _ => rfl) (by simp +arith))) (.cons (by simp +arith [weight]) .nil))
      (.cons (by simp +arith [weight]) .nil)
  | _ => simp [AllLt, Stmt.parts, weight] <;> omega

theorem allLt_parts_spec (s : Spec) : AllLt (sizeOf s) s.parts := by
  cases s with
  | imported => exact .nil
  | value names ty values =>
    simp only [Spec.parts, List.map_append]
    exact .append (.option (fun _ => rfl) (by simp +arith)) (.map (fun _ => rfl) (by simp +arith))
  | type name assign ty => exact .cons (by simp +arith [weight]) .nil

/-- **Every part is larger than its parts.** -/
theorem allLt_children (part : Part) : AllLt part.weight part.children := by
  cases part with
  | expr place x => exact allLt_parts_expr x
  | field role f =>
    cases f
    exact .cons (by simp +arith [weight]) .nil
  | fields role list =>
    cases list
    exact .map (fun _ => rfl) (by simp +arith [weight])
  | signature ty =>
    cases ty
    exact .cons (by simp +arith [weight]) (.option (fun _ => rfl) (by simp +arith [weight]))
  | block b =>
    cases b
    exact .map (fun _ => rfl) (by simp +arith [weight])
  | stmt s => exact allLt_parts_stmt s
  | caseClause clause =>
    cases clause
    exact .append (.map (fun _ => rfl) (by simp +arith [weight]))
      (.map (fun _ => rfl) (by simp +arith [weight]))
  | commClause clause =>
    cases clause
    exact .append (.option (fun _ => rfl) (by simp +arith [weight]))
      (.map (fun _ => rfl) (by simp +arith [weight]))
  | genDecl d =>
    cases d
    exact .map (fun _ => rfl) (by simp +arith [weight])
  | spec kind s => exact allLt_parts_spec s
  | funcDecl d =>
    cases d
    exact .append (.append (.option (fun _ => rfl) (by simp +arith [weight]))
      (.cons (by simp +arith [weight]) .nil)) (.option (fun _ => rfl) (by simp +arith [weight]))

/-- **A part and everything inside it**, each part before its parts. -/
def all (part : Part) : List Part :=
  part :: part.children.attach.flatMap fun child => child.1.all
termination_by part.weight
decreasing_by exact allLt_children part child.1 child.2

theorem all_eq (part : Part) : part.all = part :: part.children.flatMap all := by
  rw [all, List.flatMap_def, List.attach_map_val, ← List.flatMap_def]

/-- **What holds of every part whose parts it holds of** holds of all parts. -/
theorem induct {P : Part → Prop} (h : ∀ part, (∀ child ∈ part.children, P child) → P part)
    (part : Part) : P part :=
  h part fun child _ => induct h child
termination_by part.weight
decreasing_by exact allLt_children part child ‹_›

/-- What is inside a part of a part is inside the part. -/
theorem Inside.of_child {part child other : Part} (hchild : child ∈ part.children)
    (h : child.Inside other) : part.Inside other := by
  induction h with
  | self => exact .child .self hchild
  | child _ hmem ih => exact ih.child hmem

/-- All parts of a part are the parts inside it. -/
theorem mem_all_iff {part other : Part} : other ∈ part.all ↔ part.Inside other := by
  constructor
  · intro h
    induction part using induct with
    | h part ih =>
      rw [all_eq, List.mem_cons, List.mem_flatMap] at h
      rcases h with rfl | ⟨child, hchild, h⟩
      · exact .self
      · exact (ih child hchild h).of_child hchild
  · intro h
    induction h with
    | self =>
      rw [all_eq]
      exact List.mem_cons_self
    | @child inner child _ hmem ih =>
      -- the parts of a part come with it
      have hall : ∀ whole : Part, inner ∈ whole.all → child ∈ whole.all := by
        intro whole
        induction whole using induct with
        | h whole ihw =>
          rw [all_eq, List.mem_cons, List.mem_cons, List.mem_flatMap, List.mem_flatMap]
          rintro (rfl | ⟨other, hother, hinner⟩)
          · refine .inr ⟨child, hmem, ?_⟩
            rw [all_eq]
            exact List.mem_cons_self
          · exact .inr ⟨other, hother, ihw other hother hinner⟩
      exact hall part ih

end Part

/-- **All parts of a file**, each as often as it stands in the file. -/
def File.parts (file : File) : List Part :=
  file.decls.flatMap fun d => d.part.all

/-- All parts of a file are the parts that it contains. -/
theorem File.mem_parts_iff {file : File} {part : Part} :
    part ∈ file.parts ↔ file.Contains part := by
  simp only [parts, List.mem_flatMap, Part.mem_all_iff, Contains]

/-! ### Kinds of constructs -/

/-- The kinds of constructs that are counted. -/
inductive Construct where
  | function | functionLiteral | call | ifThen | switch | caseClause | loop | returns | assignment
  | binary | memberSelect | label
deriving DecidableEq, Repr

/-- The kind of an expression, if it is counted. -/
def Expr.construct? : Expr → Option Construct
  | .funcLit _ _ => some .functionLiteral
  | .call _ _ _ _ _ => some .call
  | .binary _ _ _ _ => some .binary
  | .selector _ _ => some .memberSelect
  | _ => none

/-- The kind of a statement, if it is counted. -/
def Stmt.construct? : Stmt → Option Construct
  | .ifThen _ _ _ _ _ => some .ifThen
  | .switch _ _ _ _ | .typeSwitch _ _ _ _ => some .switch
  | .forLoop _ _ _ _ _ | .rangeLoop _ _ _ _ _ _ => some .loop
  | .returns _ _ => some .returns
  | .assign _ _ _ => some .assignment
  | .labeled _ _ _ => some .label
  | _ => none

/-- **The kind of a part**, if it is counted. -/
def Part.construct? : Part → Option Construct
  | .expr _ x => x.construct?
  | .stmt s => s.construct?
  | .caseClause _ => some .caseClause
  | .funcDecl _ => some .function
  | _ => none

/-- **How many constructs of a kind a file has.** -/
def File.census (file : File) (kind : Construct) : Nat :=
  file.parts.countP fun part => part.construct? = some kind

end GoTree
