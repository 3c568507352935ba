import GoTree.Proofs.Grammar.Derivation
import GoTree.Proofs.Syntax.Parts

/-!
# The parts of a derivation

In a file of the grammar every part of every part stands in a role of the grammar that fits its
place: the length of an array is read as a length, the type of a parameter as such, and so on.

## Main definitions

* `Phrase.place`: the place of an expression that is read in a role
* `Part.Derived`: a part that the grammar reads in its place

## Main results

* `Part.Derived.child`: the parts of what the grammar reads are read by the grammar
* `File.Derived.of_contains`: so are all parts of a file
-/

namespace GoTree

open GoTree.Grammar

/-- The place of an expression that is read in a role. -/
def Phrase.place : Phrase → Place
  | .length _ => .length
  | .parameter _ => .parameter
  | .methodType _ => .method
  | .element _ => .element
  | .value _ => .entry
  | _ => .plain

/-- A field that the grammar reads in a list of a role. -/
def Field.DerivedAs (f : Field) : FieldRole → Prop
  | .params | .results => (Phrase.parameter f.ty).Derived
  | .struct => (Phrase.field f).Derived
  | .interface => (Phrase.method f).Derived

/-- A list of fields that the grammar reads in a role.  Only a single result needs no brackets. -/
def FieldList.DerivedAs (list : FieldList) : FieldRole → Prop
  | .params => (Phrase.parameters list).Derived
  | .results => (Phrase.parameters list).Derived ∨
      ∃ ty, list = ⟨none, [unnamed ty], none⟩ ∧ (Phrase.type ty).Derived
  | .struct => ∃ opening closing, list = ⟨some opening, list.list, some closing⟩ ∧
      ∀ f ∈ list.list, (Phrase.field f).Derived
  | .interface => ∃ opening closing, list = ⟨some opening, list.list, some closing⟩ ∧
      ∀ f ∈ list.list, (Phrase.method f).Derived

/-- **A part that the grammar reads in its place.** -/
def Part.Derived : Part → Prop
  | .expr place x => ∃ phrase : Phrase, phrase.Derived ∧ phrase.expr? = some x ∧
      phrase.place = place
  | .field role f => f.DerivedAs role
  | .fields role list => list.DerivedAs role
  | .signature ty => (Phrase.signature ty).Derived
  | .block b => (Phrase.block b).Derived
  | .stmt s => (Phrase.stmt s).Derived
  | .caseClause clause => (Phrase.caseClause clause).Derived
  | .commClause clause => (Phrase.commClause clause).Derived
  | .genDecl d => (Phrase.genDecl d).Derived
  | .spec kind s => (Phrase.spec kind s).Derived
  | .funcDecl d => (Phrase.decl (.func d)).Derived

namespace Part.Derived

variable {x : Expr}

/-- An expression in a role stands in the place of that role. -/
theorem expr {phrase : Phrase} (h : phrase.Derived) (hx : phrase.expr? = some x) :
    (Part.expr phrase.place x).Derived :=
  ⟨phrase, h, hx, rfl⟩

theorem operand {header : Bool} {least : Nat} (h : (Phrase.expr header least x).Derived) :
    (Part.expr .plain x).Derived :=
  .expr h rfl

theorem type (h : (Phrase.type x).Derived) : (Part.expr .plain x).Derived :=
  .expr h rfl

/-- All expressions of a list. -/
theorem exprs {place : Place} {list : List Expr} (h : ∀ a ∈ list, (Part.expr place a).Derived) :
    ∀ child ∈ list.map (Part.expr place), child.Derived :=
  List.forall_mem_map.2 h

theorem stmts {list : List Stmt} (h : ∀ s ∈ list, (Phrase.stmt s).Derived) :
    ∀ child ∈ list.map Part.stmt, child.Derived :=
  List.forall_mem_map.2 h

end Part.Derived

namespace Phrase.Derived

open GoTree.Part (Derived)

/-- What follows the body of an `if` is a statement. -/
theorem stmtOfElse {s : Stmt} (h : (Phrase.elseBranch s).Derived) : (Phrase.stmt s).Derived := by
  cases h with
  | elseIf hinner => exact .ifStmt hinner
  | elseBlock hinner => exact .blockStmt hinner

/-- The fields of parameters. -/
theorem field_of_parameters {list : FieldList} (h : (Phrase.parameters list).Derived) {f : Field}
    (hf : f ∈ list.list) : (Phrase.parameter f.ty).Derived := by
  cases h with
  | unnamedParameters htypes =>
    obtain ⟨x, hx, rfl⟩ := List.mem_map.1 hf
    exact htypes x hx
  | namedParameters _ htypes => exact htypes f hf

/-- The parts of a slice expression. -/
theorem sliceParts {header inside slice3 : Bool} {least : Nat} {x : Expr}
    {low high max : Option Expr} {lbrack rbrack : Offset}
    (hoperand : (Phrase.expr header least x).Derived)
    (hlow : ∀ i ∈ low, (Phrase.expr inside 1 i).Derived)
    (hhigh : ∀ i ∈ high, (Phrase.expr inside 1 i).Derived)
    (hmax : ∀ i ∈ max, (Phrase.expr inside 1 i).Derived) :
    ∀ child ∈ (Expr.slice x lbrack low high max slice3 rbrack).parts, child.Derived := by
  refine .exprs fun a ha => ?_
  simp only [List.cons_append, List.mem_cons, List.mem_append, Option.mem_toList] at ha
  rcases ha with rfl | (ha | ha) | ha
  · exact .operand hoperand
  · exact .operand (hlow a ha)
  · exact .operand (hhigh a ha)
  · exact .operand (hmax a ha)

/-- **The parts of an expression** in a role. -/
theorem exprParts {phrase : Phrase} {x : Expr} (h : phrase.Derived) (hx : phrase.expr? = some x) :
    ∀ child ∈ x.parts, child.Derived := by
  -- a role that adds nothing hands on the parts; the other rules make one constructor each
  induction h with
  | plainName | ident | basicLit | openLength =>
    obtain rfl := Option.some.inj hx
    simp [Expr.parts]
  | named _ ih | typeOperand _ ih | parameter _ ih | length _ ih | value _ ih | element _ ih =>
    exact ih hx
  | qualifiedName =>
    obtain rfl := Option.some.inj hx
    exact List.forall_mem_singleton.2 (.operand (.ident : (Phrase.expr false 0 _).Derived))
  | arrayType hlength helt =>
    obtain rfl := Option.some.inj hx
    refine List.forall_mem_append.2 ⟨.exprs fun a ha => ?_, List.forall_mem_singleton.2 (.type helt)⟩
    exact .expr (hlength a (Option.mem_toList.1 ha)) rfl
  | @structType pos opening closing list hfields =>
    obtain rfl := Option.some.inj hx
    exact List.forall_mem_singleton.2 ⟨opening, closing, rfl, hfields⟩
  | @interfaceType pos opening closing list hmethods =>
    obtain rfl := Option.some.inj hx
    exact List.forall_mem_singleton.2 ⟨opening, closing, rfl, hmethods⟩
  | pointerType hinner | parenType hinner | chanType hinner | sendType hinner
    | receiveType hinner =>
    obtain rfl := Option.some.inj hx
    exact List.forall_mem_singleton.2 (.type hinner)
  | funcType hsignature | methodType hsignature =>
    obtain rfl := Option.some.inj hx
    exact List.forall_mem_singleton.2 hsignature
  | mapType hkey hvalue =>
    obtain rfl := Option.some.inj hx
    exact List.forall_mem_cons.2 ⟨.type hkey, List.forall_mem_singleton.2 (.type hvalue)⟩
  | variadic helt =>
    obtain rfl := Option.some.inj hx
    exact List.forall_mem_singleton.2 (.type helt)
  | paren hinner | selector hinner | unary _ hinner | star _ hinner =>
    obtain rfl := Option.some.inj hx
    exact List.forall_mem_singleton.2 (.operand hinner)
  | funcLit hsignature _ hbody =>
    obtain rfl := Option.some.inj hx
    exact List.forall_mem_cons.2 ⟨hsignature, List.forall_mem_singleton.2 hbody⟩
  | typeAssert hoperand htype =>
    obtain rfl := Option.some.inj hx
    refine .exprs (List.forall_mem_cons.2 ⟨.operand hoperand, fun a ha => ?_⟩)
    exact .type (htype a (Option.mem_toList.1 ha))
  | index hoperand hindex =>
    obtain rfl := Option.some.inj hx
    exact List.forall_mem_cons.2
      ⟨.operand hoperand, List.forall_mem_singleton.2 (.operand hindex)⟩
  | slice hoperand hlow hhigh =>
    obtain rfl := Option.some.inj hx
    exact sliceParts hoperand hlow hhigh (by simp)
  | fullSlice hoperand hlow hhigh hmax =>
    obtain rfl := Option.some.inj hx
    exact sliceParts hoperand hlow (by simpa using hhigh) (by simpa using hmax)
  | call hoperand hargs =>
    obtain rfl := Option.some.inj hx
    exact .exprs (List.forall_mem_cons.2 ⟨.operand hoperand, fun a ha => .operand (hargs a ha)⟩)
  | compositeLit htype _ helements =>
    obtain rfl := Option.some.inj hx
    exact List.forall_mem_append.2 ⟨.exprs (List.forall_mem_singleton.2 (.operand htype)),
      .exprs fun a ha => .expr (helements a ha) rfl⟩
  | untypedLit helements =>
    obtain rfl := Option.some.inj hx
    exact .exprs fun a ha => .expr (helements a ha) rfl
  | keyValue hkey hvalue =>
    obtain rfl := Option.some.inj hx
    exact List.forall_mem_cons.2 ⟨.expr hkey rfl, List.forall_mem_singleton.2 (.expr hvalue rfl)⟩
  | binary _ hleft hright =>
    obtain rfl := Option.some.inj hx
    exact List.forall_mem_cons.2 ⟨.operand hleft, List.forall_mem_singleton.2 (.operand hright)⟩
  | _ => cases hx

/-- The parts of statements that may be absent. -/
theorem simpleParts {header : Bool} {init : Option Stmt}
    (h : ∀ s ∈ init, (Phrase.simple header s).Derived) :
    ∀ child ∈ init.toList.map Part.stmt, child.Derived :=
  .stmts fun s hs => .simple (h s (Option.mem_toList.1 hs))

theorem operandParts {header : Bool} {x : Option Expr}
    (h : ∀ a ∈ x, (Phrase.expr header 1 a).Derived) :
    ∀ child ∈ x.toList.map (Part.expr .plain), child.Derived :=
  .exprs fun a ha => .operand (h a (Option.mem_toList.1 ha))

theorem clauses {b : CaseBlock} (h : (Phrase.caseBlock b).Derived) :
    ∀ child ∈ b.clauses.map Part.caseClause, child.Derived := by
  cases h with
  | caseBlock hclauses => exact List.forall_mem_map.2 hclauses

/-- **The parts of a statement.** -/
theorem stmtParts {s : Stmt} (h : (Phrase.stmt s).Derived) : ∀ child ∈ s.parts, child.Derived := by
  cases h with
  | empty | branch => simp [Stmt.parts]
  | simple hinner =>
    cases hinner with
    | exprStmt hinner | step hinner => exact List.forall_mem_singleton.2 (.operand hinner)
    | send hchan hvalue =>
      exact List.forall_mem_cons.2 ⟨.operand hchan, List.forall_mem_singleton.2 (.operand hvalue)⟩
    | assign hlhs hrhs =>
      exact .exprs (List.forall_mem_append.2
        ⟨fun a ha => .operand (hlhs a ha), fun a ha => .operand (hrhs a ha)⟩)
  | labeled hinner => exact List.forall_mem_singleton.2 hinner
  | declStmt hinner => exact List.forall_mem_singleton.2 hinner
  | goCall hinner | deferCall hinner => exact List.forall_mem_singleton.2 (.operand hinner)
  | returns hresults => exact .exprs fun a ha => .operand (hresults a ha)
  | blockStmt hinner => exact List.forall_mem_singleton.2 hinner
  | ifStmt hinner =>
    cases hinner with
    | ifThen hinit hcond hbody horElse =>
      refine List.forall_mem_append.2 ⟨List.forall_mem_append.2 ⟨simpleParts hinit, ?_⟩, ?_⟩
      · exact List.forall_mem_cons.2 ⟨.operand hcond, List.forall_mem_singleton.2 hbody⟩
      · exact .stmts fun s hs => (horElse s (Option.mem_toList.1 hs)).stmtOfElse
  | switch hinit htag hbody =>
    exact List.forall_mem_append.2
      ⟨List.forall_mem_append.2 ⟨simpleParts hinit, operandParts htag⟩, hbody.clauses⟩
  | typeSwitch hinit hguard _ hbody =>
    exact List.forall_mem_append.2
      ⟨List.forall_mem_append.2 ⟨simpleParts hinit, List.forall_mem_singleton.2 (.simple hguard)⟩,
        hbody.clauses⟩
  | select hclauses => exact List.forall_mem_map.2 hclauses
  | forLoop hinit hcond hpost hbody =>
    refine List.forall_mem_append.2 ⟨?_, List.forall_mem_singleton.2 hbody⟩
    exact List.forall_mem_append.2
      ⟨List.forall_mem_append.2 ⟨simpleParts hinit, operandParts hcond⟩, simpleParts hpost⟩
  | rangeLoop hkey hvalue hrange hbody =>
    refine List.forall_mem_append.2 ⟨.exprs fun a ha => ?_, List.forall_mem_singleton.2 hbody⟩
    simp only [List.mem_append, Option.mem_toList, List.mem_singleton] at ha
    rcases ha with (ha | ha) | rfl
    · exact .operand (hkey a ha)
    · exact .operand (hvalue a ha)
    · exact .operand hrange

/-- The parts of a specification. -/
theorem specParts {kind : DeclKind} {s : Spec} (h : (Phrase.spec kind s).Derived) :
    ∀ child ∈ s.parts, child.Derived := by
  cases h with
  | importSpec => simp [Spec.parts]
  | valueSpec _ _ htype hvalues =>
    refine .exprs (List.forall_mem_append.2 ⟨fun a ha => ?_, fun a ha => .operand (hvalues a ha)⟩)
    exact .type (htype a (Option.mem_toList.1 ha))
  | typeSpec htype => exact List.forall_mem_singleton.2 (.type htype)

end Phrase.Derived

namespace Part.Derived

/-- The type of a field. -/
theorem fieldType {f : Field} {role : FieldRole} (h : f.DerivedAs role) :
    (Part.expr (role.place f) f.ty).Derived := by
  cases role with
  | params | results => exact .expr h rfl
  | struct =>
    cases h with
    | embeddedPointer hname => exact .type (.pointerType (.named hname))
    | embedded hname => exact .type (.named hname)
    | namedField _ htype => exact .type htype
  | interface =>
    -- a method has a name and an embedded interface has none, which decides on the place
    cases h with
    | method htype => exact .expr htype rfl
    | embeddedInterface hname => exact .type (.named hname)

/-- The fields of a list. -/
theorem ofFields {list : FieldList} {role : FieldRole} (h : list.DerivedAs role) :
    ∀ f ∈ list.list, f.DerivedAs role := by
  cases role with
  | params => exact fun f hf => Phrase.Derived.field_of_parameters h hf
  | results =>
    -- a list between parentheses, or a single result without them
    rcases h with h | ⟨ty, rfl, hty⟩
    · exact fun f hf => h.field_of_parameters hf
    · exact List.forall_mem_singleton.2 (Phrase.Derived.parameter hty)
  | struct => exact h.choose_spec.choose_spec.2
  | interface => exact h.choose_spec.choose_spec.2

/-- The parameters and results of a signature. -/
theorem ofSignature {ty : FuncType} (h : (Phrase.signature ty).Derived) :
    (Part.fields .params ty.params).Derived ∧
      ∀ list ∈ ty.results, (Part.fields .results list).Derived := by
  cases h with
  | noResult hparams => exact ⟨hparams, by simp⟩
  | @oneResult _ _ ty hparams hresult =>
    refine ⟨hparams, ?_⟩
    rintro _ ⟨⟩
    exact .inr ⟨ty, rfl, hresult⟩
  | results hparams hresults =>
    refine ⟨hparams, ?_⟩
    rintro _ ⟨⟩
    exact .inl hresults

/-- **The parts of what the grammar reads** are read by the grammar, each in its place. -/
theorem child {part : Part} (h : part.Derived) : ∀ child ∈ part.children, child.Derived := by
  cases part with
  | expr place x =>
    obtain ⟨phrase, hphrase, hx, -⟩ := h
    exact hphrase.exprParts hx
  | field role f => exact List.forall_mem_singleton.2 (fieldType h)
  | fields role list => exact List.forall_mem_map.2 (ofFields h)
  | signature ty =>
    obtain ⟨hparams, hresults⟩ := ofSignature h
    refine List.forall_mem_cons.2 ⟨hparams, List.forall_mem_map.2 fun list hlist => ?_⟩
    exact hresults list (Option.mem_toList.1 hlist)
  | block b =>
    cases h with
    | block hlist => exact .stmts hlist
  | stmt s => exact Phrase.Derived.stmtParts h
  | caseClause clause =>
    cases h with
    | caseClause hlist hbody =>
      exact List.forall_mem_append.2 ⟨.exprs fun a ha => .operand (hlist a ha), .stmts hbody⟩
  | commClause clause =>
    cases h with
    | commClause hcomm hbody =>
      exact List.forall_mem_append.2 ⟨Phrase.Derived.simpleParts hcomm, .stmts hbody⟩
  | genDecl d =>
    cases h with
    | singleDecl hspec => exact List.forall_mem_singleton.2 hspec
    | groupedDecl hspecs => exact List.forall_mem_map.2 hspecs
  | spec kind s => exact Phrase.Derived.specParts h
  | funcDecl d =>
    cases h with
    | funcDecl hrecv hsignature _ hbody =>
      refine List.forall_mem_append.2 ⟨List.forall_mem_append.2 ⟨?_, ?_⟩, ?_⟩
      · exact List.forall_mem_map.2 fun list hlist => hrecv list (Option.mem_toList.1 hlist)
      · exact List.forall_mem_singleton.2 hsignature
      · exact List.forall_mem_map.2 fun b hb => hbody b (Option.mem_toList.1 hb)

end Part.Derived

/-- **All parts of a file of the grammar** are read by the grammar, each in its place. -/
theorem File.Derived.of_contains {file : File} (h : file.Derived) {part : Part}
    (hpart : file.Contains part) : part.Derived := by
  -- every part of a declaration is reached by steps from a part to one of its own
  refine hpart.induct (fun d hd => ?_) fun part hpart => hpart.child
  have hderived := h d hd
  cases d with
  | gen d =>
    cases hderived with
    | genDecl hinner => exact hinner
  | func d => exact hderived

end GoTree
