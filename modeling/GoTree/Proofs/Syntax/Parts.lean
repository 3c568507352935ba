import GoTree.Mapping.Plan.Construct

/-!
# The parts of a syntax tree

Every construct inside a file, each in the place where it stands: an expression stands for a length,
a parameter type, an element of a composite literal and so on, and fields stand in the list of a
struct, an interface or a signature.  A construct is inside another if it is that construct or a
part of a part of it.

## Main definitions

* `Place`: where an expression stands
* `Part`: a construct in its place
* `Part.children`: the parts of a part
* `Part.genDecl?`, `Part.goCall?`: parts of one kind
* `Part.Inside`, `File.Contains`: the parts of parts, and those of a file
-/

namespace GoTree

/-- Where an expression stands in the construct around it. -/
inductive Place where
  /-- Any place but those below: operands, types, values, conditions. -/
  | plain
  /-- The length of an array type. -/
  | length
  /-- The type of a parameter or of a result. -/
  | parameter
  /-- The type of a method of an interface. -/
  | method
  /-- An element of a composite literal. -/
  | element
  /-- The key or the value of an element. -/
  | entry
deriving DecidableEq, Repr

/-- **A construct in its place.** -/
inductive Part where
  | expr (place : Place) (x : Expr)
  | field (role : FieldRole) (f : Field)
  | fields (role : FieldRole) (list : FieldList)
  | signature (ty : FuncType)
  | block (b : Block)
  | stmt (s : Stmt)
  | caseClause (clause : CaseClause)
  | commClause (clause : CommClause)
  | genDecl (d : GenDecl)
  | spec (kind : DeclKind) (s : Spec)
  | funcDecl (d : FuncDecl)

/-- The place of the type of a field. -/
def FieldRole.place (role : FieldRole) (f : Field) : Place :=
  match role with
  | .params | .results => .parameter
  | .struct => .plain
  | .interface => if f.names.isEmpty then .plain else .method

/-- The parts of an expression. -/
def Expr.parts : Expr → List Part
  | .ident _ | .basicLit _ => []
  | .ellipsis _ elt => elt.toList.map (.expr .plain)
  | .funcLit ty body => [.signature ty, .block body]
  | .compositeLit ty _ elts _ => ty.toList.map (.expr .plain) ++ elts.map (.expr .element)
  | .paren _ x _ | .selector x _ | .star _ x | .unary _ _ x => [.expr .plain x]
  | .index x _ i _ => [.expr .plain x, .expr .plain i]
  | .slice x _ low high max _ _ =>
    (x :: low.toList ++ high.toList ++ max.toList).map (.expr .plain)
  | .typeAssert x _ ty _ => (x :: ty.toList).map (.expr .plain)
  | .call callee _ args _ _ => (callee :: args).map (.expr .plain)
  | .binary x _ _ y => [.expr .plain x, .expr .plain y]
  | .keyValue key _ value => [.expr .entry key, .expr .entry value]
  | .arrayType _ len elt => len.toList.map (.expr .length) ++ [.expr .plain elt]
  | .structType _ fields => [.fields .struct fields]
  | .funcType ty => [.signature ty]
  | .interfaceType _ methods => [.fields .interface methods]
  | .mapType _ key value => [.expr .plain key, .expr .plain value]
  | .chanType _ _ _ value => [.expr .plain value]

/-- The parts of a statement. -/
def Stmt.parts : Stmt → List Part
  | .empty _ | .branch _ _ _ => []
  | .decl d => [.genDecl d]
  | .labeled _ _ s => [.stmt s]
  | .expr x | .step x _ _ | .goCall _ x | .deferCall _ x => [.expr .plain x]
  | .send chan _ value => [.expr .plain chan, .expr .plain value]
  | .assign lhs _ rhs => (lhs ++ rhs).map (.expr .plain)
  | .returns _ results => results.map (.expr .plain)
  | .block b => [.block b]
  | .ifThen _ init cond body orElse =>
    init.toList.map .stmt ++ [.expr .plain cond, .block body] ++ orElse.toList.map .stmt
  | .switch _ init tag body =>
    init.toList.map .stmt ++ tag.toList.map (.expr .plain) ++ body.clauses.map .caseClause
  | .typeSwitch _ init guard body =>
    init.toList.map .stmt ++ [.stmt guard] ++ body.clauses.map .caseClause
  | .select _ _ clauses _ => clauses.map .commClause
  | .forLoop _ init cond post body =>
    init.toList.map .stmt ++ cond.toList.map (.expr .plain) ++ post.toList.map .stmt ++
      [.block body]
  | .rangeLoop _ key value _ x body =>
    (key.toList ++ value.toList ++ [x]).map (.expr .plain) ++ [.block body]

/-- The parts of a specification. -/
def Spec.parts : Spec → List Part
  | .imported _ _ => []
  | .value _ ty values => (ty.toList ++ values).map (.expr .plain)
  | .type _ _ ty => [.expr .plain ty]

namespace Part

/-- **The parts of a part**, each in its place. -/
def children : Part → List Part
  | .expr _ x => x.parts
  | .field role f => [.expr (role.place f) f.ty]
  | .fields role list => list.list.map (.field role)
  | .signature ty => .fields .params ty.params :: ty.results.toList.map (.fields .results)
  | .block b => b.list.map .stmt
  | .stmt s => s.parts
  | .caseClause clause => clause.list.map (.expr .plain) ++ clause.body.map .stmt
  | .commClause clause => clause.comm.toList.map .stmt ++ clause.body.map .stmt
  | .genDecl d => d.specs.map (.spec d.kind)
  | .spec _ s => s.parts
  | .funcDecl d =>
    d.recv.toList.map (.fields .params) ++ [.signature d.ty] ++ d.body.toList.map .block

/-- A declaration of imports, constants, variables or types; no other part. -/
def genDecl? : Part → Option GenDecl
  | .genDecl d => some d
  | _ => none

theorem genDecl?_eq_some_iff {part : Part} {d : GenDecl} :
    part.genDecl? = some d ↔ part = .genDecl d := by
  cases part <;> simp [genDecl?]

/-- The keyword and the expression of a `go` statement; nothing for other parts. -/
def goCall? : Part → Option (Offset × Expr)
  | .stmt (.goCall pos x) => some (pos, x)
  | _ => none

theorem goCall?_eq_some_iff {part : Part} {pos : Offset} {x : Expr} :
    part.goCall? = some (pos, x) ↔ part = .stmt (.goCall pos x) := by
  cases part with
  | stmt s => cases s <;> simp [goCall?]
  | _ => simp [goCall?]

/-- **What is inside a part:** the part itself, and the parts of what is inside it. -/
inductive Inside (whole : Part) : Part → Prop
  | self : Inside whole whole
  | child {part child : Part} (inside : Inside whole part) (mem : child ∈ part.children) :
      Inside whole child

end Part

/-- A declaration of a file as a part. -/
def Decl.part : Decl → Part
  | .gen d => .genDecl d
  | .func d => .funcDecl d

/-- **A file contains** what is inside one of its declarations. -/
def File.Contains (file : File) (part : Part) : Prop :=
  ∃ d ∈ file.decls, d.part.Inside part

/-- What every declaration has and every part hands on to its parts, all parts of a file have. -/
theorem File.Contains.induct {file : File} {P : Part → Prop} (hdecl : ∀ d ∈ file.decls, P d.part)
    (hchild : ∀ part, P part → ∀ child ∈ part.children, P child) {part : Part}
    (h : file.Contains part) : P part := by
  obtain ⟨d, hd, hinside⟩ := h
  induction hinside with
  | self => exact hdecl d hd
  | child _ hmem ih => exact hchild _ ih _ hmem

end GoTree
