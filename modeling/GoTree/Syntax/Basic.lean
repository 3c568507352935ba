import GoTree.Syntax.Operator
import GoTree.Text.Basic

/-!
# Syntax trees

The positioned syntax tree of a Go file.  A node records byte offsets only for some of its tokens:
keywords, operators, the brackets that delimit a construct, and the start of names and literals.
Commas, the point of a selector, the equals sign of a value specification, the closing bracket of an
array type, the colons of a slice expression and some keywords have no offset of their own.

Literals and comments are stored as text, whose size gives their end.  Raw strings and comments are
stored without carriage returns, so their stored text can be shorter than their source.

## Main definitions

* `Ident`, `BasicLit`, `Comment`, `CommentGroup`: the leaves
* `Expr`, `Stmt`, `GenDecl` and their companions: the mutually recursive constructs
* `FuncDecl`, `Decl`, `File`: declarations and whole files
-/

namespace GoTree

/-- A name. -/
structure Ident where
  pos : Offset
  name : String
deriving DecidableEq, Repr

/-- A literal, as stored. -/
structure BasicLit where
  pos : Offset
  kind : Literal
  value : String
deriving DecidableEq, Repr

/-- A comment, as stored. -/
structure Comment where
  slash : Offset
  text : String
deriving DecidableEq, Repr

/-- Comments with no token and no empty line between them. -/
structure CommentGroup where
  list : List Comment
deriving DecidableEq, Repr

/-- An explicit `;`, or the place of a statement left out before a closing brace or a line break. -/
structure EmptyStmt where
  semicolon : Offset
  implicit : Bool
deriving DecidableEq, Repr

/-- The operator of an assignment and where it stands. -/
structure AssignTok where
  pos : Offset
  op : AssignOp
deriving DecidableEq, Repr

mutual

/-- An expression or a type. -/
inductive Expr where
  | ident (ident : Ident)
  | basicLit (lit : BasicLit)
  /-- Three points before the element type of a variadic parameter, or alone as an array length. -/
  | ellipsis (pos : Offset) (elt : Option Expr)
  | funcLit (ty : FuncType) (body : Block)
  | compositeLit (ty : Option Expr) (lbrace : Offset) (elts : List Expr) (rbrace : Offset)
  | paren (lparen : Offset) (x : Expr) (rparen : Offset)
  | selector (x : Expr) (sel : Ident)
  | index (x : Expr) (lbrack : Offset) (index : Expr) (rbrack : Offset)
  | slice (x : Expr) (lbrack : Offset) (low high max : Option Expr) (slice3 : Bool)
      (rbrack : Offset)
  /-- A type assertion; without a type, the guard of a type switch. -/
  | typeAssert (x : Expr) (lparen : Offset) (ty : Option Expr) (rparen : Offset)
  | call (callee : Expr) (lparen : Offset) (args : List Expr) (ellipsis : Option Offset)
      (rparen : Offset)
  | star (star : Offset) (x : Expr)
  | unary (opPos : Offset) (op : UnaryOp) (x : Expr)
  | binary (x : Expr) (opPos : Offset) (op : BinaryOp) (y : Expr)
  | keyValue (key : Expr) (colon : Offset) (value : Expr)
  /-- An array type, or a slice type when there is no length. -/
  | arrayType (lbrack : Offset) (len : Option Expr) (elt : Expr)
  | structType (pos : Offset) (fields : FieldList)
  | funcType (ty : FuncType)
  | interfaceType (pos : Offset) (methods : FieldList)
  | mapType (pos : Offset) (key value : Expr)
  /-- A channel type, which begins at its keyword or at the arrow of a receive-only channel. -/
  | chanType (begin : Offset) (arrow : Option Offset) (dir : ChanDir) (value : Expr)

/-- Names of one type: parameters, results, fields of a struct or a method of an interface. -/
structure Field where
  names : List Ident
  ty : Expr
  tag : Option BasicLit

/-- Fields between brackets; a single result needs no brackets. -/
structure FieldList where
  opening : Option Offset
  list : List Field
  closing : Option Offset

/-- Parameters and results.  The keyword is absent where it belongs to the enclosing construct. -/
structure FuncType where
  func : Option Offset
  params : FieldList
  results : Option FieldList

/-- Statements between braces. -/
structure Block where
  lbrace : Offset
  list : List Stmt
  rbrace : Offset

/-- A statement. -/
inductive Stmt where
  | decl (decl : GenDecl)
  | empty (empty : EmptyStmt)
  | labeled (label : Ident) (colon : Offset) (stmt : Stmt)
  | expr (x : Expr)
  | send (chan : Expr) (arrow : Offset) (value : Expr)
  | step (x : Expr) (tokPos : Offset) (op : StepOp)
  | assign (lhs : List Expr) (tok : AssignTok) (rhs : List Expr)
  | goCall (pos : Offset) (call : Expr)
  | deferCall (pos : Offset) (call : Expr)
  | returns (pos : Offset) (results : List Expr)
  | branch (tokPos : Offset) (kind : Branch) (label : Option Ident)
  | block (block : Block)
  | ifThen (pos : Offset) (init : Option Stmt) (cond : Expr) (body : Block) (orElse : Option Stmt)
  | switch (pos : Offset) (init : Option Stmt) (tag : Option Expr) (body : CaseBlock)
  | typeSwitch (pos : Offset) (init : Option Stmt) (assign : Stmt) (body : CaseBlock)
  | select (pos : Offset) (lbrace : Offset) (clauses : List CommClause) (rbrace : Offset)
  | forLoop (pos : Offset) (init : Option Stmt) (cond : Option Expr) (post : Option Stmt)
      (body : Block)
  | rangeLoop (pos : Offset) (key value : Option Expr) (tok : Option AssignTok) (x : Expr)
      (body : Block)

/-- A clause of a switch; the default clause has no values. -/
structure CaseClause where
  pos : Offset
  list : List Expr
  colon : Offset
  body : List Stmt

/-- The clauses of a switch between braces. -/
structure CaseBlock where
  lbrace : Offset
  clauses : List CaseClause
  rbrace : Offset

/-- A clause of a select; the default clause has no communication. -/
structure CommClause where
  pos : Offset
  comm : Option Stmt
  colon : Offset
  body : List Stmt

/-- An import, constant, type or variable declaration. -/
structure GenDecl where
  tokPos : Offset
  kind : DeclKind
  lparen : Option Offset
  specs : List Spec
  rparen : Option Offset

/-- One specification of a declaration. -/
inductive Spec where
  /-- An imported path, with a local name, a point or an underscore before it. -/
  | imported (name : Option Ident) (path : BasicLit)
  | value (names : List Ident) (ty : Option Expr) (values : List Expr)
  /-- A type; an alias has an equals sign. -/
  | type (name : Ident) (assign : Option Offset) (ty : Expr)

end

/-- A function or method declaration. -/
structure FuncDecl where
  func : Offset
  recv : Option FieldList
  name : Ident
  ty : FuncType
  body : Option Block

/-- A top-level declaration. -/
inductive Decl where
  | gen (decl : GenDecl)
  | func (decl : FuncDecl)

/-- A whole file; `size` is the size of the text it was read from. -/
structure File where
  package : Offset
  name : Ident
  decls : List Decl
  comments : List CommentGroup
  size : Nat

/-- All comments of a file, group after group. -/
def File.allComments (file : File) : List Comment :=
  file.comments.flatMap CommentGroup.list

/-- An expression without the parentheses around it. -/
def Expr.unparen : Expr → Expr
  | .paren _ x _ => x.unparen
  | e => e

end GoTree
