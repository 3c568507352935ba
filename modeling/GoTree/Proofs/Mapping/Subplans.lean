import GoTree.Proofs.Mapping.Recorded
import GoTree.Proofs.Syntax.Parts

/-!
# Plans inside plans

The plan of a construct holds the plans of its parts, some of them in groups of their own: the
arguments of a call, the condition of an `if`, the values of a declaration.  So the plan of a file
holds a plan of every part of the file.

## Main definitions

* `Plan.Inside`: the plans inside a plan
* `Part.PlannedAs`: the plans of a part
* `Covers`: plans that hold a plan of each of some parts

## Main results

* `Part.PlannedAs.covers`: the plan of a part holds plans of its parts
* `Part.PlannedAs.inside`: and of everything inside it
-/

namespace GoTree

open Plan

/-- **What is inside a plan:** the plan itself, and the parts of the groups inside it. -/
inductive Plan.Inside (whole : Plan) : Plan → Prop
  | self : Inside whole whole
  | part {tags : List Tag} {label : String} {parts : List Plan} {sub : Plan}
      (inside : Inside whole (.group tags label parts)) (mem : sub ∈ parts) : Inside whole sub

theorem Plan.Inside.trans {whole plan sub : Plan} (h : whole.Inside plan) (h' : plan.Inside sub) :
    whole.Inside sub := by
  induction h' with
  | self => exact h
  | part _ hmem ih => exact ih.part hmem

/-- **The plans of a part.**  The types of function literals and declarations have a group of their
own; a function type is planned with its keyword.  A block after `else` is planned as a block. -/
def Part.PlannedAs (plan : Plan) : Part → Prop
  | .expr _ x => ∃ reading tags field, plan = x.plan reading tags field
  | .field role f => ∃ field, plan = f.plan role field
  | .fields role list => ∃ tags field, plan = list.plan role tags field
  | .signature ty => plan = .group [] (labelOf "Type" "FuncType") ty.parts ∨
      ∃ reading tags field, plan = (Expr.funcType ty).plan reading tags field
  | .block b => ∃ tags field, plan = b.plan tags field
  | .stmt s => (∃ tags field, plan = s.plan tags field) ∨
      ∃ b tags field, s = .block b ∧ plan = b.plan tags field
  | .caseClause clause => ∃ reading field, plan = clause.plan reading field
  | .commClause clause => ∃ field, plan = clause.plan field
  | .genDecl d => ∃ field, plan = d.plan field
  | .spec kind s => ∃ field, plan = s.plan kind field
  | .funcDecl d => ∃ field, plan = d.plan field

/-! ### Covering -/

/-- **Plans that hold a plan of each of some parts.** -/
def Covers (plans : List Plan) (parts : List Part) : Prop :=
  ∀ part ∈ parts, ∃ plan ∈ plans, ∃ sub, plan.Inside sub ∧ part.PlannedAs sub

namespace Covers

variable {plans more : List Plan} {parts others : List Part} {plan : Plan} {part : Part}

theorem nil : Covers plans [] := by
  intro part hpart
  cases hpart

theorem left (h : Covers plans parts) : Covers (plans ++ more) parts := by
  intro part hpart
  obtain ⟨plan, hplan, hsub⟩ := h part hpart
  exact ⟨plan, List.mem_append_left _ hplan, hsub⟩

theorem right (h : Covers more parts) : Covers (plans ++ more) parts := by
  intro part hpart
  obtain ⟨plan, hplan, hsub⟩ := h part hpart
  exact ⟨plan, List.mem_append_right _ hplan, hsub⟩

theorem append (h : Covers plans parts) (h' : Covers more others) :
    Covers (plans ++ more) (parts ++ others) :=
  List.forall_mem_append.2 ⟨h.left, h'.right⟩

/-- A plan of none of the parts. -/
theorem skip (h : Covers plans parts) : Covers (plan :: plans) parts :=
  show Covers ([plan] ++ plans) parts from h.right

/-- What the first plan holds. -/
theorem head (h : Covers [plan] parts) : Covers (plan :: more) parts :=
  show Covers ([plan] ++ more) parts from h.left

theorem single (h : part.PlannedAs plan) : Covers [plan] [part] :=
  List.forall_mem_singleton.2 ⟨plan, List.mem_singleton_self plan, plan, .self, h⟩

theorem cons (h : part.PlannedAs plan) (h' : Covers plans parts) :
    Covers (plan :: plans) (part :: parts) :=
  (single h).append h'

/-- A group holds what its parts hold. -/
theorem group {tags : List Tag} {label : String} (h : Covers plans parts) :
    Covers [.group tags label plans] parts := by
  intro part hpart
  obtain ⟨plan, hplan, sub, hsub, hplanned⟩ := h part hpart
  have hinside : Plan.Inside (.group tags label plans) plan := .part .self hplan
  exact ⟨_, List.mem_singleton_self _, sub, hinside.trans hsub, hplanned⟩

end Covers

/-! ### Lists of constructs -/

section

variable {reading : Reading} {place : Place} {role : FieldRole} {kind : DeclKind} {tags : List Tag}
  {field : String}

theorem Expr.planned (x : Expr) : (Part.expr place x).PlannedAs (x.plan reading tags field) :=
  ⟨reading, tags, field, rfl⟩

theorem Stmt.planned (s : Stmt) : (Part.stmt s).PlannedAs (s.plan tags field) :=
  .inl ⟨tags, field, rfl⟩

theorem Block.planned (b : Block) : (Part.block b).PlannedAs (b.plan tags field) :=
  ⟨tags, field, rfl⟩

theorem FieldList.planned (list : FieldList) :
    (Part.fields role list).PlannedAs (list.plan role tags field) :=
  ⟨tags, field, rfl⟩

theorem Expr.covers_plans (list : List Expr) (i : Nat) :
    Covers (Expr.plans reading tags i list) (list.map (.expr place)) := by
  induction list generalizing i with
  | nil => exact .nil
  | cons x list ih => exact .cons x.planned (ih (i + 1))

theorem Expr.covers_plan? (x : Option Expr) :
    Covers (Expr.plan? reading tags field x) (x.toList.map (.expr place)) := by
  cases x with
  | none => exact .nil
  | some x => exact .single x.planned

theorem Stmt.covers_plans (list : List Stmt) (i : Nat) :
    Covers (Stmt.plans i list) (list.map .stmt) := by
  induction list generalizing i with
  | nil => exact .nil
  | cons s list ih => exact .cons s.planned (ih (i + 1))

theorem Stmt.covers_plan? (s : Option Stmt) :
    Covers (Stmt.plan? tags field s) (s.toList.map .stmt) := by
  cases s with
  | none => exact .nil
  | some s => exact .single s.planned

/-- A block after `else` is planned as a block. -/
theorem Stmt.covers_elsePlan? (s : Option Stmt) :
    Covers (Stmt.elsePlan? s) (s.toList.map .stmt) := by
  cases s with
  | none => exact .nil
  | some s =>
    cases s with
    | block b => exact .single (.inr ⟨b, _, _, rfl, rfl⟩)
    | _ => exact .single (Stmt.planned _)

theorem Field.covers_plans (list : List Field) (i : Nat) :
    Covers (Field.plans role i list) (list.map (.field role)) := by
  induction list generalizing i with
  | nil => exact .nil
  | cons f list ih => exact .cons ⟨_, rfl⟩ (ih (i + 1))

theorem Spec.covers_plans (list : List Spec) (i : Nat) :
    Covers (Spec.plans kind i list) (list.map (.spec kind)) := by
  induction list generalizing i with
  | nil => exact .nil
  | cons s list ih => exact .cons ⟨_, rfl⟩ (ih (i + 1))

theorem CaseClause.covers_plans (list : List CaseClause) (i : Nat) :
    Covers (CaseClause.plans reading i list) (list.map .caseClause) := by
  induction list generalizing i with
  | nil => exact .nil
  | cons clause list ih => exact .cons ⟨_, _, rfl⟩ (ih (i + 1))

theorem CommClause.covers_plans (list : List CommClause) (i : Nat) :
    Covers (CommClause.plans i list) (list.map .commClause) := by
  induction list generalizing i with
  | nil => exact .nil
  | cons clause list ih => exact .cons ⟨_, rfl⟩ (ih (i + 1))

theorem CaseBlock.covers_parts (b : CaseBlock) :
    Covers (b.parts reading) (b.clauses.map .caseClause) := by
  obtain ⟨lbrace, clauses, rbrace⟩ := b
  exact .left (.skip (CaseClause.covers_plans clauses 0))

theorem FuncType.covers_parts (ty : FuncType) : Covers ty.parts (Part.signature ty).children := by
  obtain ⟨func, params, results⟩ := ty
  refine .cons params.planned ?_
  cases results with
  | none => exact .nil
  | some results => exact .single results.planned

end

/-! ### Constructs -/

/-- **The plan of an expression** holds plans of its parts. -/
theorem Expr.covers (x : Expr) (reading : Reading) (tags : List Tag) (field : String) :
    Covers [x.plan reading tags field] x.parts := by
  cases x with
  | ident | basicLit => exact .nil
  | ellipsis pos elt =>
    cases elt with
    | none => exact .nil
    | some elt => exact .group (.skip (.single elt.planned))
  | funcLit ty body => exact .group (.right (.cons (.inl rfl) (.single body.planned)))
  | compositeLit ty lbrace elts rbrace =>
    exact .group (.append (Expr.covers_plan? ty)
      (.skip (.head (.group (Expr.covers_plans elts 0)))))
  | paren lparen x rparen =>
    cases reading <;> exact .group (.skip (.cons x.planned .nil))
  | selector x sel => exact .group (.cons x.planned .nil)
  | index x lbrack i rbrack => exact .group (.cons x.planned (.skip (.cons i.planned .nil)))
  | slice x lbrack low high max slice3 rbrack =>
    simp only [parts, List.map_append, List.map_cons]
    exact .group (.left (.append (.append (.cons x.planned (.skip (Expr.covers_plan? low)))
      (Expr.covers_plan? high)) (Expr.covers_plan? max)))
  | typeAssert x lparen ty rparen =>
    exact .group (.left (.append (.cons x.planned .nil) (Expr.covers_plan? ty)))
  | call callee lparen args dots rparen =>
    exact .group (.left (.left (.cons callee.planned (.skip (.group (Expr.covers_plans args 0))))))
  | star pos x => cases reading <;> exact .group (.skip (.single x.planned))
  | unary opPos op x => exact .group (.skip (.single x.planned))
  | binary x opPos op y => exact .group (.cons x.planned (.skip (.single y.planned)))
  | keyValue key colon value => exact .group (.cons key.planned (.skip (.single value.planned)))
  | arrayType lbrack len elt =>
    exact .group (.append (.skip (Expr.covers_plan? len)) (.single elt.planned))
  | structType pos fields => exact .group (.skip (.single fields.planned))
  | funcType ty => exact .single (.inr ⟨reading, tags, field, rfl⟩)
  | interfaceType pos methods => exact .group (.skip (.single methods.planned))
  | mapType pos key value => exact .group (.skip (.cons key.planned (.single value.planned)))
  | chanType pos arrow dir value => exact .group (.right (.single value.planned))

/-- **The plan of a statement** holds plans of its parts. -/
theorem Stmt.covers (s : Stmt) (tags : List Tag) (field : String) :
    Covers [s.plan tags field] s.parts := by
  cases s with
  | empty | branch => exact .nil
  | block b => exact .single b.planned
  | labeled label colon s => exact .group (.skip (.skip (.single s.planned)))
  | decl d => exact .group (.single ⟨_, rfl⟩)
  | expr x => exact .group (.single x.planned)
  | send chan arrow value =>
    exact .group (.cons chan.planned (.skip (.single value.planned)))
  | step x tokPos op => exact .group (.cons x.planned .nil)
  | assign lhs tok rhs =>
    rw [parts, List.map_append]
    exact .group (.append (.group (Expr.covers_plans lhs 0))
      (.skip (.group (Expr.covers_plans rhs 0))))
  | goCall pos call | deferCall pos call => exact .group (.skip (.single call.planned))
  | returns pos results => exact .group (.skip (Expr.covers_plans results 0))
  | ifThen pos init cond body orElse =>
    rw [parts,
      show [Part.expr .plain cond, .block body] = [.expr .plain cond] ++ [.block body] from rfl,
      ← List.append_assoc]
    refine .group (.append (.skip (.append (.group ?_) (.single body.planned)))
      (Stmt.covers_elsePlan? orElse))
    exact .append (Stmt.covers_plan? init) (.single cond.planned)
  | switch pos init tag body =>
    exact .group (.append (.append (.skip (Stmt.covers_plan? init)) (Expr.covers_plan? tag))
      (CaseBlock.covers_parts body))
  | typeSwitch pos init guard body =>
    exact .group (.append (.append (.skip (Stmt.covers_plan? init)) (.single guard.planned))
      (CaseBlock.covers_parts body))
  | select pos lbrace clauses rbrace =>
    exact .group (.left (.skip (.skip (CommClause.covers_plans clauses 0))))
  | forLoop pos init cond post body =>
    exact .group (.append (.append (.append (.skip (Stmt.covers_plan? init))
      (Expr.covers_plan? cond)) (Stmt.covers_plan? post)) (.single body.planned))
  | rangeLoop pos key value tok x body =>
    rw [parts, List.map_append, List.map_append, List.append_assoc]
    refine .group (.append (.left ?_) (.cons x.planned (.single body.planned)))
    exact .append (.skip (Expr.covers_plan? key)) (Expr.covers_plan? value)

/-- The plan of a specification holds plans of its parts. -/
theorem Spec.covers (s : Spec) (kind : DeclKind) (field : String) :
    Covers [s.plan kind field] s.parts := by
  cases s with
  | imported => exact .nil
  | value names ty values =>
    rw [parts, List.map_append]
    exact .group (.append (.skip (Expr.covers_plan? ty)) (.group (Expr.covers_plans values 0)))
  | type name assign ty => exact .group (.right (.single ty.planned))

theorem FuncDecl.covers (d : FuncDecl) (field : String) :
    Covers [d.plan field] (Part.funcDecl d).children := by
  obtain ⟨func, recv, name, ty, body⟩ := d
  refine .group (.append (.append (.skip ?_) ?_) ?_)
  · cases recv with
    | none => exact .nil
    | some recv => exact .single recv.planned
  · exact .skip (.single (.inl rfl))
  · cases body with
    | none => exact .nil
    | some body => exact .single body.planned

/-- **The plan of a part** holds plans of its parts. -/
theorem Part.PlannedAs.covers {part : Part} {plan : Plan} (h : part.PlannedAs plan) :
    Covers [plan] part.children := by
  cases part with
  | expr place x =>
    obtain ⟨reading, tags, field, rfl⟩ := h
    exact x.covers reading tags field
  | field role f =>
    obtain ⟨field, rfl⟩ := h
    obtain ⟨names, ty, tag⟩ := f
    exact .group (.left (.skip (.single ty.planned)))
  | fields role list =>
    obtain ⟨tags, field, rfl⟩ := h
    obtain ⟨opening, list, closing⟩ := list
    exact .group (.left (.right (Field.covers_plans list 0)))
  | signature ty =>
    -- a signature is planned inside a declaration, or as a type after its keyword
    rcases h with rfl | ⟨reading, tags, field, rfl⟩
    · exact .group ty.covers_parts
    · exact .group (.right ty.covers_parts)
  | block b =>
    obtain ⟨tags, field, rfl⟩ := h
    obtain ⟨lbrace, list, rbrace⟩ := b
    exact .group (.left (.skip (Stmt.covers_plans list 0)))
  | stmt s =>
    -- a block after `else` is planned as a block, not as a statement
    rcases h with ⟨tags, field, rfl⟩ | ⟨b, tags, field, rfl, rfl⟩
    · exact s.covers tags field
    · exact .single b.planned
  | caseClause clause =>
    obtain ⟨reading, field, rfl⟩ := h
    obtain ⟨pos, list, colon, body⟩ := clause
    exact .group (.append (.skip (Expr.covers_plans list 0)) (.skip (Stmt.covers_plans body 0)))
  | commClause clause =>
    obtain ⟨field, rfl⟩ := h
    obtain ⟨pos, comm, colon, body⟩ := clause
    exact .group (.append (.skip (Stmt.covers_plan? comm)) (.skip (Stmt.covers_plans body 0)))
  | genDecl d =>
    obtain ⟨field, rfl⟩ := h
    obtain ⟨tokPos, kind, lparen, specs, rparen⟩ := d
    exact .group (.left (.right (.group (Spec.covers_plans specs 0))))
  | spec kind s =>
    obtain ⟨field, rfl⟩ := h
    exact s.covers kind field
  | funcDecl d =>
    obtain ⟨field, rfl⟩ := h
    exact d.covers field

/-- **Everything inside a part** has a plan inside the plan of the part. -/
theorem Part.PlannedAs.inside {whole part : Part} {plan : Plan} (h : whole.PlannedAs plan)
    (hpart : whole.Inside part) : ∃ sub, plan.Inside sub ∧ part.PlannedAs sub := by
  -- the plan of each part is found inside the plan of the part around it
  induction hpart with
  | self => exact ⟨plan, .self, h⟩
  | child _ hmem ih =>
    obtain ⟨sub, hsub, hplanned⟩ := ih
    obtain ⟨plan', hplan', sub', hsub', hplanned'⟩ := hplanned.covers _ hmem
    rw [List.mem_singleton.1 hplan'] at hsub'
    exact ⟨sub', hsub.trans hsub', hplanned'⟩

end GoTree
