import GoTree.Grammar.Statement
import GoTree.Proofs.Syntax.Recorded

/-!
# Derivations

The trees of the grammar, said without tokens and readers: which parts a construct has and in which
role each of them stands.  Binary operators bind from one to five; the operators before an operand
bind more tightly than these, and what is no operator at all more tightly still.  In the header of a
control statement a composite literal needs a type that cannot be a value.

## Main definitions

* `Phrase`: a part of a syntax tree in a role
* `Phrase.Derived`: the phrases of the grammar
* `File.Derived`: the files of the grammar

## Main results

* `Phrase.Derived.of_mem_exprs`: every expression inside a phrase stands in a role
-/

namespace GoTree

open GoTree.Grammar

/-- A part of a syntax tree in the role in which the grammar reads it.  For expressions and simple
statements `header` says whether they stand in the header of a control statement, outside all
brackets. -/
inductive Phrase where
  /-- A type name, plain or qualified by a package. -/
  | typeName (x : Expr)
  | type (x : Expr)
  /-- The length of an array. -/
  | length (x : Expr)
  /-- A field of a struct. -/
  | field (f : Field)
  /-- A method or an embedded interface. -/
  | method (f : Field)
  /-- The type of a parameter. -/
  | parameter (x : Expr)
  /-- Parameters with their parentheses. -/
  | parameters (list : FieldList)
  | signature (ty : FuncType)
  /-- The type of a method. -/
  | methodType (x : Expr)
  /-- An expression whose operators bind at least as tightly as `least`. -/
  | expr (header : Bool) (least : Nat) (x : Expr)
  /-- An element of a composite literal, or its key or value. -/
  | value (x : Expr)
  /-- An element of a composite literal, with its key. -/
  | element (x : Expr)
  | block (b : Block)
  | simple (header : Bool) (s : Stmt)
  | ifThen (s : Stmt)
  /-- What follows the body of an `if`. -/
  | elseBranch (s : Stmt)
  | stmt (s : Stmt)
  | caseClause (c : CaseClause)
  | caseBlock (b : CaseBlock)
  | commClause (c : CommClause)
  | spec (kind : DeclKind) (s : Spec)
  | genDecl (d : GenDecl)
  | decl (d : Decl)

namespace Phrase

/-- How tightly the operators before an operand bind. -/
def prefixLevel : Nat := 6

/-- **The phrases of the grammar.** -/
inductive Derived : Phrase → Prop
  -- types
  | plainName {name : Ident} : Derived (.typeName (.ident name))
  | qualifiedName {package sel : Ident} : Derived (.typeName (.selector (.ident package) sel))
  | named {x : Expr} (hname : Derived (.typeName x)) : Derived (.type x)
  | arrayType {lbrack : Offset} {len : Option Expr} {elt : Expr}
      (hlength : ∀ x ∈ len, Derived (.length x)) (helt : Derived (.type elt)) :
      Derived (.type (.arrayType lbrack len elt))
  | structType {pos opening closing : Offset} {list : List Field}
      (hfields : ∀ f ∈ list, Derived (.field f)) :
      Derived (.type (.structType pos ⟨some opening, list, some closing⟩))
  | pointerType {star : Offset} {x : Expr} (hbase : Derived (.type x)) :
      Derived (.type (.star star x))
  | funcType {ty : FuncType} (hsignature : Derived (.signature ty))
      (hfunc : ty.func.isSome = true) : Derived (.type (.funcType ty))
  | interfaceType {pos opening closing : Offset} {list : List Field}
      (hmethods : ∀ f ∈ list, Derived (.method f)) :
      Derived (.type (.interfaceType pos ⟨some opening, list, some closing⟩))
  | mapType {pos : Offset} {key value : Expr} (hkey : Derived (.type key))
      (hvalue : Derived (.type value)) : Derived (.type (.mapType pos key value))
  | chanType {begin : Offset} {value : Expr} (hvalue : Derived (.type value)) :
      Derived (.type (.chanType begin none .both value))
  | sendType {begin arrow : Offset} {value : Expr} (hvalue : Derived (.type value)) :
      Derived (.type (.chanType begin (some arrow) .send value))
  | receiveType {arrow : Offset} {value : Expr} (hvalue : Derived (.type value)) :
      Derived (.type (.chanType arrow (some arrow) .receive value))
  | parenType {lparen rparen : Offset} {x : Expr} (hinner : Derived (.type x)) :
      Derived (.type (.paren lparen x rparen))
  | openLength {pos : Offset} : Derived (.length (.ellipsis pos none))
  | length {header : Bool} {x : Expr} (hsize : Derived (.expr header 1 x)) : Derived (.length x)
  -- fields, parameters and signatures
  | embeddedPointer {star : Offset} {x : Expr} {tag : Option BasicLit}
      (hname : Derived (.typeName x)) : Derived (.field ⟨[], .star star x, tag⟩)
  | embedded {x : Expr} {tag : Option BasicLit} (hname : Derived (.typeName x)) :
      Derived (.field ⟨[], x, tag⟩)
  | namedField {names : List Ident} {ty : Expr} {tag : Option BasicLit} (hnames : names ≠ [])
      (htype : Derived (.type ty)) : Derived (.field ⟨names, ty, tag⟩)
  | methodType {ty : FuncType} (hsignature : Derived (.signature ty)) (hfunc : ty.func = none) :
      Derived (.methodType (.funcType ty))
  | method {name : Ident} {ty : Expr} (htype : Derived (.methodType ty)) :
      Derived (.method ⟨[name], ty, none⟩)
  | embeddedInterface {x : Expr} (hname : Derived (.typeName x)) :
      Derived (.method (unnamed x))
  | parameter {x : Expr} (htype : Derived (.type x)) : Derived (.parameter x)
  | variadic {pos : Offset} {elt : Expr} (htype : Derived (.type elt)) :
      Derived (.parameter (.ellipsis pos (some elt)))
  | unnamedParameters {opening closing : Offset} {types : List Expr}
      (htypes : ∀ x ∈ types, Derived (.parameter x)) :
      Derived (.parameters ⟨some opening, types.map unnamed, some closing⟩)
  | namedParameters {opening closing : Offset} {list : List Field}
      (hnames : ∀ f ∈ list, f.names ≠ [] ∧ f.tag = none)
      (htypes : ∀ f ∈ list, Derived (.parameter f.ty)) :
      Derived (.parameters ⟨some opening, list, some closing⟩)
  | noResult {func : Option Offset} {params : FieldList} (hparams : Derived (.parameters params)) :
      Derived (.signature ⟨func, params, none⟩)
  | oneResult {func : Option Offset} {params : FieldList} {ty : Expr}
      (hparams : Derived (.parameters params)) (hresult : Derived (.type ty)) :
      Derived (.signature ⟨func, params, some ⟨none, [unnamed ty], none⟩⟩)
  | results {func : Option Offset} {params results : FieldList}
      (hparams : Derived (.parameters params)) (hresults : Derived (.parameters results)) :
      Derived (.signature ⟨func, params, some results⟩)
  -- operands and what follows them
  | ident {header : Bool} {least : Nat} {name : Ident} :
      Derived (.expr header least (.ident name))
  | basicLit {header : Bool} {least : Nat} {lit : BasicLit} :
      Derived (.expr header least (.basicLit lit))
  | paren {header inside : Bool} {least : Nat} {lparen rparen : Offset} {x : Expr}
      (hinner : Derived (.expr inside 1 x)) : Derived (.expr header least (.paren lparen x rparen))
  | typeOperand {header : Bool} {least : Nat} {x : Expr} (htype : Derived (.type x)) :
      Derived (.expr header least x)
  | funcLit {header : Bool} {least : Nat} {ty : FuncType} {body : Block}
      (hsignature : Derived (.signature ty)) (hfunc : ty.func.isSome = true)
      (hbody : Derived (.block body)) : Derived (.expr header least (.funcLit ty body))
  | selector {header : Bool} {least : Nat} {x : Expr} {sel : Ident}
      (hoperand : Derived (.expr header (prefixLevel + 1) x)) :
      Derived (.expr header least (.selector x sel))
  | typeAssert {header : Bool} {least : Nat} {x : Expr} {ty : Option Expr}
      {lparen rparen : Offset} (hoperand : Derived (.expr header (prefixLevel + 1) x))
      (htype : ∀ t ∈ ty, Derived (.type t)) :
      Derived (.expr header least (.typeAssert x lparen ty rparen))
  | index {header inside : Bool} {least : Nat} {x i : Expr} {lbrack rbrack : Offset}
      (hoperand : Derived (.expr header (prefixLevel + 1) x))
      (hindex : Derived (.expr inside 1 i)) :
      Derived (.expr header least (.index x lbrack i rbrack))
  | slice {header inside : Bool} {least : Nat} {x : Expr} {low high : Option Expr}
      {lbrack rbrack : Offset} (hoperand : Derived (.expr header (prefixLevel + 1) x))
      (hlow : ∀ i ∈ low, Derived (.expr inside 1 i))
      (hhigh : ∀ i ∈ high, Derived (.expr inside 1 i)) :
      Derived (.expr header least (.slice x lbrack low high none false rbrack))
  | fullSlice {header inside : Bool} {least : Nat} {x high max : Expr} {low : Option Expr}
      {lbrack rbrack : Offset} (hoperand : Derived (.expr header (prefixLevel + 1) x))
      (hlow : ∀ i ∈ low, Derived (.expr inside 1 i)) (hhigh : Derived (.expr inside 1 high))
      (hmax : Derived (.expr inside 1 max)) :
      Derived (.expr header least (.slice x lbrack low (some high) (some max) true rbrack))
  | call {header inside : Bool} {least : Nat} {callee : Expr} {args : List Expr}
      {dots : Option Offset} {lparen rparen : Offset}
      (hoperand : Derived (.expr header (prefixLevel + 1) callee))
      (hargs : ∀ x ∈ args, Derived (.expr inside 1 x)) :
      Derived (.expr header least (.call callee lparen args dots rparen))
  | compositeLit {header : Bool} {least : Nat} {ty : Expr} {elts : List Expr}
      {lbrace rbrace : Offset} (htype : Derived (.expr header (prefixLevel + 1) ty))
      (hliteral : isLiteralType ty (if header then -1 else 0) = true)
      (helements : ∀ x ∈ elts, Derived (.element x)) :
      Derived (.expr header least (.compositeLit (some ty) lbrace elts rbrace))
  | untypedLit {elts : List Expr} {lbrace rbrace : Offset}
      (helements : ∀ x ∈ elts, Derived (.element x)) :
      Derived (.value (.compositeLit none lbrace elts rbrace))
  | value {header : Bool} {x : Expr} (hinner : Derived (.expr header 1 x)) : Derived (.value x)
  | element {x : Expr} (hvalue : Derived (.value x)) : Derived (.element x)
  | keyValue {key value : Expr} {colon : Offset} (hkey : Derived (.value key))
      (hvalue : Derived (.value value)) : Derived (.element (.keyValue key colon value))
  -- operators
  | unary {header : Bool} {least : Nat} {opPos : Offset} {op : UnaryOp} {x : Expr}
      (hbinds : least ≤ prefixLevel) (hoperand : Derived (.expr header prefixLevel x)) :
      Derived (.expr header least (.unary opPos op x))
  | star {header : Bool} {least : Nat} {star : Offset} {x : Expr} (hbinds : least ≤ prefixLevel)
      (hoperand : Derived (.expr header prefixLevel x)) :
      Derived (.expr header least (.star star x))
  | binary {header : Bool} {least : Nat} {opPos : Offset} {op : BinaryOp} {x y : Expr}
      (hbinds : least ≤ op.precedence) (hleft : Derived (.expr header op.precedence x))
      (hright : Derived (.expr header (op.precedence + 1) y)) :
      Derived (.expr header least (.binary x opPos op y))
  -- simple statements
  | exprStmt {header : Bool} {x : Expr} (hinner : Derived (.expr header 1 x)) :
      Derived (.simple header (.expr x))
  | send {header : Bool} {chan value : Expr} {arrow : Offset}
      (hchan : Derived (.expr header 1 chan)) (hvalue : Derived (.expr header 1 value)) :
      Derived (.simple header (.send chan arrow value))
  | step {header : Bool} {x : Expr} {tokPos : Offset} {op : StepOp}
      (hoperand : Derived (.expr header 1 x)) : Derived (.simple header (.step x tokPos op))
  | assign {header : Bool} {lhs rhs : List Expr} {tok : AssignTok}
      (hlhs : ∀ x ∈ lhs, Derived (.expr header 1 x))
      (hrhs : ∀ x ∈ rhs, Derived (.expr header 1 x)) (hvalues : rhs ≠ []) :
      Derived (.simple header (.assign lhs tok rhs))
  -- statements
  | block {lbrace rbrace : Offset} {list : List Stmt} (hlist : ∀ s ∈ list, Derived (.stmt s)) :
      Derived (.block ⟨lbrace, list, rbrace⟩)
  | simple {header : Bool} {s : Stmt} (hinner : Derived (.simple header s)) : Derived (.stmt s)
  | empty {e : EmptyStmt} : Derived (.stmt (.empty e))
  | labeled {label : Ident} {colon : Offset} {s : Stmt} (hinner : Derived (.stmt s)) :
      Derived (.stmt (.labeled label colon s))
  | declStmt {d : GenDecl} (hinner : Derived (.genDecl d)) (hkind : d.kind ≠ .imports) :
      Derived (.stmt (.decl d))
  | goCall {header : Bool} {pos : Offset} {x : Expr} (hinner : Derived (.expr header 1 x))
      (hcall : ∃ callee lparen args dots rparen,
        x.unparen = .call callee lparen args dots rparen) :
      Derived (.stmt (.goCall pos x))
  | deferCall {header : Bool} {pos : Offset} {x : Expr} (hinner : Derived (.expr header 1 x))
      (hcall : ∃ callee lparen args dots rparen,
        x.unparen = .call callee lparen args dots rparen) :
      Derived (.stmt (.deferCall pos x))
  | returns {header : Bool} {pos : Offset} {results : List Expr}
      (hresults : ∀ x ∈ results, Derived (.expr header 1 x)) :
      Derived (.stmt (.returns pos results))
  | branch {tokPos : Offset} {kind : Branch} {label : Option Ident} :
      Derived (.stmt (.branch tokPos kind label))
  | blockStmt {b : Block} (hinner : Derived (.block b)) : Derived (.stmt (.block b))
  | ifStmt {s : Stmt} (hinner : Derived (.ifThen s)) : Derived (.stmt s)
  | ifThen {pos : Offset} {init orElse : Option Stmt} {cond : Expr} {body : Block}
      (hinit : ∀ s ∈ init, Derived (.simple true s)) (hcond : Derived (.expr true 1 cond))
      (hbody : Derived (.block body)) (horElse : ∀ s ∈ orElse, Derived (.elseBranch s)) :
      Derived (.ifThen (.ifThen pos init cond body orElse))
  | elseIf {s : Stmt} (hinner : Derived (.ifThen s)) : Derived (.elseBranch s)
  | elseBlock {b : Block} (hinner : Derived (.block b)) : Derived (.elseBranch (.block b))
  | switch {pos : Offset} {init : Option Stmt} {tag : Option Expr} {body : CaseBlock}
      (hinit : ∀ s ∈ init, Derived (.simple true s)) (htag : ∀ x ∈ tag, Derived (.expr true 1 x))
      (hbody : Derived (.caseBlock body)) : Derived (.stmt (.switch pos init tag body))
  | typeSwitch {pos : Offset} {init : Option Stmt} {guard : Stmt} {body : CaseBlock}
      (hinit : ∀ s ∈ init, Derived (.simple true s)) (hguard : Derived (.simple true guard))
      (hisGuard : isTypeSwitchGuard guard = true) (hbody : Derived (.caseBlock body)) :
      Derived (.stmt (.typeSwitch pos init guard body))
  | select {pos lbrace rbrace : Offset} {clauses : List CommClause}
      (hclauses : ∀ c ∈ clauses, Derived (.commClause c)) :
      Derived (.stmt (.select pos lbrace clauses rbrace))
  | forLoop {pos : Offset} {init post : Option Stmt} {cond : Option Expr} {body : Block}
      (hinit : ∀ s ∈ init, Derived (.simple true s)) (hcond : ∀ x ∈ cond, Derived (.expr true 1 x))
      (hpost : ∀ s ∈ post, Derived (.simple true s)) (hbody : Derived (.block body)) :
      Derived (.stmt (.forLoop pos init cond post body))
  | rangeLoop {pos : Offset} {key value : Option Expr} {tok : Option AssignTok} {x : Expr}
      {body : Block} (hkey : ∀ k ∈ key, Derived (.expr true 1 k))
      (hvalue : ∀ v ∈ value, Derived (.expr true 1 v)) (hrange : Derived (.expr true 1 x))
      (hbody : Derived (.block body)) (htok : tok.isSome = key.isSome)
      (hpair : value.isSome = true → key.isSome = true)
      (hop : ∀ a ∈ tok, a.op = .define ∨ a.op = .assign) :
      Derived (.stmt (.rangeLoop pos key value tok x body))
  | caseClause {header : Bool} {pos colon : Offset} {list : List Expr} {body : List Stmt}
      (hlist : ∀ x ∈ list, Derived (.expr header 1 x)) (hbody : ∀ s ∈ body, Derived (.stmt s)) :
      Derived (.caseClause ⟨pos, list, colon, body⟩)
  | caseBlock {lbrace rbrace : Offset} {clauses : List CaseClause}
      (hclauses : ∀ c ∈ clauses, Derived (.caseClause c)) :
      Derived (.caseBlock ⟨lbrace, clauses, rbrace⟩)
  | commClause {header : Bool} {pos colon : Offset} {comm : Option Stmt} {body : List Stmt}
      (hcomm : ∀ s ∈ comm, Derived (.simple header s)) (hbody : ∀ s ∈ body, Derived (.stmt s)) :
      Derived (.commClause ⟨pos, comm, colon, body⟩)
  -- declarations
  | importSpec {name : Option Ident} {path : BasicLit} (hpath : path.kind = .string) :
      Derived (.spec .imports (.imported name path))
  | valueSpec {kind : DeclKind} {header : Bool} {names : List Ident} {ty : Option Expr}
      {values : List Expr} (hkind : kind = .constants ∨ kind = .variables) (hnames : names ≠ [])
      (htype : ∀ x ∈ ty, Derived (.type x)) (hvalues : ∀ x ∈ values, Derived (.expr header 1 x))
      (hvariable : kind = .variables → ty.isSome = true ∨ values ≠ [])
      (hconstant : kind = .constants → ty.isSome = true → values ≠ []) :
      Derived (.spec kind (.value names ty values))
  | typeSpec {name : Ident} {assign : Option Offset} {ty : Expr} (htype : Derived (.type ty)) :
      Derived (.spec .types (.type name assign ty))
  | singleDecl {tokPos : Offset} {kind : DeclKind} {spec : Spec}
      (hspec : Derived (.spec kind spec)) : Derived (.genDecl ⟨tokPos, kind, none, [spec], none⟩)
  | groupedDecl {tokPos lparen rparen : Offset} {kind : DeclKind} {specs : List Spec}
      (hspecs : ∀ spec ∈ specs, Derived (.spec kind spec)) :
      Derived (.genDecl ⟨tokPos, kind, some lparen, specs, some rparen⟩)
  | genDecl {d : GenDecl} (hinner : Derived (.genDecl d)) : Derived (.decl (.gen d))
  | funcDecl {d : FuncDecl} (hrecv : ∀ list ∈ d.recv, Derived (.parameters list))
      (hsignature : Derived (.signature d.ty)) (hfunc : d.ty.func = none)
      (hbody : ∀ b ∈ d.body, Derived (.block b)) : Derived (.decl (.func d))

/-! ### Expressions inside phrases -/

/-- Every expression inside a phrase. -/
def exprs : Phrase → List Expr
  | .typeName x | .type x | .length x | .parameter x | .methodType x => x.exprs
  | .expr _ _ x | .value x | .element x => x.exprs
  | .field f | .method f => f.exprs
  | .parameters list => list.exprs
  | .signature ty => ty.exprs
  | .block b => b.exprs
  | .simple _ s | .ifThen s | .elseBranch s | .stmt s => s.exprs
  | .caseClause c => c.exprs
  | .caseBlock b => b.exprs
  | .commClause c => c.exprs
  | .spec _ s => s.exprs
  | .genDecl d => d.exprs
  | .decl d => d.exprs

/-- The expression that stands in the role, if it is a role of expressions. -/
def expr? : Phrase → Option Expr
  | .typeName x | .type x | .length x | .parameter x | .methodType x => some x
  | .expr _ _ x | .value x | .element x => some x
  | _ => none

end Phrase

/-- **An expression of the grammar**, in whatever role. -/
def Expr.Derived (x : Expr) : Prop :=
  ∃ phrase : Phrase, phrase.Derived ∧ phrase.expr? = some x

/-- **A file of the grammar.** -/
def File.Derived (file : File) : Prop :=
  ∀ d ∈ file.decls, (Phrase.decl d).Derived

/-! ### Expressions of parts that may be absent -/

section

variable {x : Expr}

theorem Expr.mem_exprs? {e : Option Expr} : x ∈ Expr.exprs? e ↔ ∃ a ∈ e, x ∈ a.exprs := by
  cases e <;> simp [Expr.exprs?]

theorem Stmt.mem_exprs? {s : Option Stmt} : x ∈ Stmt.exprs? s ↔ ∃ a ∈ s, x ∈ a.exprs := by
  cases s <;> simp [Stmt.exprs?]

theorem FieldList.mem_exprs? {list : Option FieldList} :
    x ∈ FieldList.exprs? list ↔ ∃ a ∈ list, x ∈ a.exprs := by
  cases list <;> simp [FieldList.exprs?]

theorem Block.mem_exprs? {b : Option Block} :
    x ∈ (b.map Block.exprs).getD [] ↔ ∃ a ∈ b, x ∈ a.exprs := by
  cases b <;> simp

theorem FuncType.mem_exprs {ty : FuncType} :
    x ∈ ty.exprs ↔ x ∈ ty.params.exprs ∨ ∃ a ∈ ty.results, x ∈ a.exprs := by
  obtain ⟨func, params, results⟩ := ty
  rw [FuncType.exprs, List.mem_append, FieldList.mem_exprs?]

theorem Field.exprs_eq (f : Field) : f.exprs = f.ty.exprs := by
  obtain ⟨names, ty, tag⟩ := f
  rfl

theorem FieldList.mem_exprs {list : FieldList} :
    x ∈ list.exprs ↔ ∃ f ∈ list.list, x ∈ f.exprs := by
  obtain ⟨opening, list, closing⟩ := list
  simp only [FieldList.exprs, Field.exprsAll_eq, List.mem_flatMap]

end

/-! ### Roles of expressions -/

namespace Phrase.Derived

variable {phrase : Phrase} {x : Expr}

/-- An expression in a role is an expression of the grammar. -/
@[grind →]
theorem expr (h : phrase.Derived) (hx : phrase.expr? = some x) : x.Derived :=
  ⟨phrase, h, hx⟩

/-- Where looser operators are allowed, so is what binds tightly. -/
theorem weaken {header : Bool} {least least' : Nat} (h : (Phrase.expr header least x).Derived)
    (hle : least' ≤ least) : (Phrase.expr header least' x).Derived := by
  cases h with
  | ident => exact .ident
  | basicLit => exact .basicLit
  | paren hinner => exact .paren hinner
  | typeOperand htype => exact .typeOperand htype
  | funcLit hsignature hfunc hbody => exact .funcLit hsignature hfunc hbody
  | selector hoperand => exact .selector hoperand
  | typeAssert hoperand htype => exact .typeAssert hoperand htype
  | index hoperand hindex => exact .index hoperand hindex
  | slice hoperand hlow hhigh => exact .slice hoperand hlow hhigh
  | fullSlice hoperand hlow hhigh hmax => exact .fullSlice hoperand hlow hhigh hmax
  | call hoperand hargs => exact .call hoperand hargs
  | compositeLit htype hliteral helements => exact .compositeLit htype hliteral helements
  | unary hbinds hoperand => exact .unary (Nat.le_trans hle hbinds) hoperand
  | star hbinds hoperand => exact .star (Nat.le_trans hle hbinds) hoperand
  | binary hbinds hleft hright => exact .binary (Nat.le_trans hle hbinds) hleft hright

/-- What is inside a phrase is the phrase itself or an expression of the grammar. -/
theorem self_or_derived (h : phrase.Derived) (hx : x ∈ phrase.exprs) :
    phrase.expr? = some x ∨ x.Derived := by
  induction h with
  | qualifiedName =>
    obtain rfl | hx := List.mem_cons.1 hx
    · exact .inl rfl
    · rw [List.mem_singleton.1 hx]
      exact .inr (expr (.ident : (Phrase.expr false 0 _).Derived) rfl)
  | embeddedPointer hname ih =>
    obtain rfl | hx := List.mem_cons.1 hx
    · exact .inr (expr (pointerType (named hname)) rfl)
    · exact .inr ((ih hx).elim (expr hname) id)
  | _ =>
    -- a construct itself stands in its role, and its parts by induction in theirs
    simp only [exprs, Expr.exprs, Expr.exprsAll_eq, FuncType.mem_exprs, FieldList.mem_exprs,
      Field.exprs_eq, Stmt.exprs, Stmt.exprsAll_eq, Block.exprs, CaseClause.exprsAll_eq,
      CommClause.exprsAll_eq, Spec.exprsAll_eq, GenDecl.exprs, Spec.exprs, CaseClause.exprs,
      CaseBlock.exprs, CommClause.exprs, Decl.exprs, unnamed, Expr.mem_exprs?, Stmt.mem_exprs?,
      FieldList.mem_exprs?, Block.mem_exprs?, List.mem_append, List.mem_cons, List.mem_flatMap,
      List.mem_map, List.not_mem_nil] at * <;>
    grind [expr?]

/-- **Every expression inside a phrase** is an expression of the grammar. -/
theorem of_mem_exprs (h : phrase.Derived) (hx : x ∈ phrase.exprs) : x.Derived :=
  (h.self_or_derived hx).elim h.expr id

end Phrase.Derived

/-- Whether an expression may be an operand: variadic types, pairs with a key, literals without a
type and the types of functions only stand in other roles, or also do. -/
def Expr.isOperand : Expr → Bool
  | .ellipsis _ _ | .keyValue _ _ _ | .compositeLit none _ _ _ | .funcType _ => false
  | _ => true

/-- **What may be an operand is one**, whatever its role. -/
theorem Expr.Derived.exists_expr {x : Expr} (h : x.Derived) (hx : x.isOperand = true) :
    ∃ header least, (Phrase.expr header least x).Derived := by
  obtain ⟨phrase, h, hrole⟩ := h
  cases phrase <;> cases hrole
  -- what is read as a type may stand as an operand too
  case typeName => exact ⟨false, 0, .typeOperand (.named h)⟩
  case type => exact ⟨false, 0, .typeOperand h⟩
  case expr header least => exact ⟨header, least, h⟩
  -- the other roles hand on to a type or to an expression
  case length =>
    cases h with
    | length hsize => exact ⟨_, _, hsize⟩
    | openLength => cases hx
  case parameter =>
    cases h with
    | parameter htype => exact ⟨false, 0, .typeOperand htype⟩
    | variadic => cases hx
  case methodType =>
    cases h
    cases hx
  case value =>
    cases h with
    | value hinner => exact ⟨_, _, hinner⟩
    | untypedLit => cases hx
  case element =>
    cases h with
    | keyValue => cases hx
    | element hvalue =>
      cases hvalue with
      | value hinner => exact ⟨_, _, hinner⟩
      | untypedLit => cases hx

/-- **Every expression of a file of the grammar** is an expression of the grammar. -/
theorem File.Derived.of_mem_exprs {file : File} {x : Expr} (h : file.Derived)
    (hx : x ∈ file.exprs) : x.Derived := by
  obtain ⟨d, hd, hx⟩ := List.mem_flatMap.1 hx
  exact (h d hd).of_mem_exprs hx

end GoTree
