import GoTree.Syntax.Basic
import GoTree.Text.Basic

/-!
# Where constructs start and stop

The byte offsets of the first and after the last character of a construct, read off the offsets that
the syntax tree records.  The end of a name or literal is found from the size of its stored text.

## Main definitions

* `Expr.start`, `Expr.stop`, `Stmt.start`, `Stmt.stop`: expressions and statements
* `Field.start`, `Field.stop`, `FieldList.start?`, `FieldList.stop?`, `FuncType.stop`: signatures
* `Spec.stop`, `GenDecl.stop`, `Block.stop`: declarations and blocks
-/

namespace GoTree

/-- The number of bytes of a stored text. -/
def storedSize (s : String) : Nat :=
  Text.size s.toList

/-- Where a name stops. -/
def Ident.stop (ident : Ident) : Offset :=
  ident.pos + storedSize ident.name

/-- Where a literal stops, as far as its stored text tells. -/
def BasicLit.stop (lit : BasicLit) : Offset :=
  lit.pos + storedSize lit.value

/-- Where a comment stops, as far as its stored text tells. -/
def Comment.stop (comment : Comment) : Offset :=
  comment.slash + storedSize comment.text

/-- Where a block stops. -/
def Block.stop (block : Block) : Offset :=
  block.rbrace + 1

mutual

/-- Where an expression starts. -/
def Expr.start : Expr → Offset
  | .ident i => i.pos
  | .basicLit lit => lit.pos
  | .ellipsis pos _ => pos
  | .funcLit ty body => ty.func.getD body.lbrace
  | .compositeLit (some ty) _ _ _ => ty.start
  | .compositeLit none lbrace _ _ => lbrace
  | .paren lparen _ _ => lparen
  | .selector x _ => x.start
  | .index x _ _ _ => x.start
  | .slice x _ _ _ _ _ _ => x.start
  | .typeAssert x _ _ _ => x.start
  | .call callee _ _ _ _ => callee.start
  | .star pos _ => pos
  | .unary opPos _ _ => opPos
  | .binary x _ _ _ => x.start
  | .keyValue key _ _ => key.start
  | .arrayType lbrack _ _ => lbrack
  | .structType pos _ => pos
  | .funcType ty => ty.start?.getD 0
  | .interfaceType pos _ => pos
  | .mapType pos _ _ => pos
  | .chanType pos _ _ _ => pos

/-- Where a function type starts: at its keyword or at its parameters. -/
def FuncType.start? : FuncType → Option Offset
  | ⟨func, params, _⟩ => func.or params.start?

/-- Where a list of fields starts: at its bracket or at its first field. -/
def FieldList.start? : FieldList → Option Offset
  | ⟨some opening, _, _⟩ => some opening
  | ⟨none, field :: _, _⟩ => some field.start
  | ⟨none, [], _⟩ => none

/-- Where a field starts: at its first name or at its type. -/
def Field.start : Field → Offset
  | ⟨name :: _, _, _⟩ => name.pos
  | ⟨[], ty, _⟩ => ty.start

end

mutual

/-- Where an expression stops. -/
def Expr.stop : Expr → Offset
  | .ident i => i.stop
  | .basicLit lit => lit.stop
  | .ellipsis _ (some elt) => elt.stop
  | .ellipsis pos none => pos + 3
  | .funcLit _ body => body.stop
  | .compositeLit _ _ _ rbrace => rbrace + 1
  | .paren _ _ rparen => rparen + 1
  | .selector _ sel => sel.stop
  | .index _ _ _ rbrack => rbrack + 1
  | .slice _ _ _ _ _ _ rbrack => rbrack + 1
  | .typeAssert _ _ _ rparen => rparen + 1
  | .call _ _ _ _ rparen => rparen + 1
  | .star _ x => x.stop
  | .unary _ _ x => x.stop
  | .binary _ _ _ y => y.stop
  | .keyValue _ _ value => value.stop
  | .arrayType _ _ elt => elt.stop
  | .structType pos fields => fields.stop?.getD pos
  | .funcType ty => ty.stop
  | .interfaceType pos methods => methods.stop?.getD pos
  | .mapType _ _ value => value.stop
  | .chanType _ _ _ value => value.stop

/-- Where a function type stops: after its results or else after its parameters. -/
def FuncType.stop : FuncType → Offset
  | ⟨_, params, some results⟩ => (results.stop?.or params.stop?).getD 0
  | ⟨_, params, none⟩ => params.stop?.getD 0

/-- Where a list of fields stops: after its bracket or after its last field. -/
def FieldList.stop? : FieldList → Option Offset
  | ⟨_, _, some closing⟩ => some (closing + 1)
  | ⟨_, list, none⟩ => Field.lastStop? list

/-- Where the last of some fields stops. -/
def Field.lastStop? : List Field → Option Offset
  | [] => none
  | field :: rest => (Field.lastStop? rest).or (some field.stop)

/-- Where a field stops: after its tag or after its type. -/
def Field.stop : Field → Offset
  | ⟨_, _, some tag⟩ => tag.stop
  | ⟨_, ty, none⟩ => ty.stop

end

/-- Where a specification stops. -/
def Spec.stop : Spec → Offset
  | .imported _ path => path.stop
  | .value names ty values =>
    match values.getLast?.or ty with
    | some last => last.stop
    | none => (names.getLast?.map Ident.stop).getD 0
  | .type _ _ ty => ty.stop

/-- Where a general declaration stops. -/
def GenDecl.stop (decl : GenDecl) : Offset :=
  match decl.rparen, decl.specs.getLast? with
  | some rparen, _ => rparen + 1
  | none, some spec => spec.stop
  | none, none => decl.tokPos + storedSize decl.kind.keyword.spelling

/-- Where a statement starts. -/
def Stmt.start : Stmt → Offset
  | .decl d => d.tokPos
  | .empty e => e.semicolon
  | .labeled label _ _ => label.pos
  | .expr x => x.start
  | .send chan _ _ => chan.start
  | .step x _ _ => x.start
  | .assign lhs tok _ => (lhs.head?.map Expr.start).getD tok.pos
  | .goCall pos _ => pos
  | .deferCall pos _ => pos
  | .returns pos _ => pos
  | .branch tokPos _ _ => tokPos
  | .block b => b.lbrace
  | .ifThen pos _ _ _ _ => pos
  | .switch pos _ _ _ => pos
  | .typeSwitch pos _ _ _ => pos
  | .select pos _ _ _ => pos
  | .forLoop pos _ _ _ _ => pos
  | .rangeLoop pos _ _ _ _ _ => pos

/-- Where a statement stops. -/
def Stmt.stop : Stmt → Offset
  | .decl d => d.stop
  | .empty e => if e.implicit then e.semicolon else e.semicolon + 1
  | .labeled _ colon stmt => max stmt.stop (colon + 1)
  | .expr x => x.stop
  | .send _ _ value => value.stop
  | .step _ tokPos _ => tokPos + 2
  | .assign _ tok rhs => (rhs.getLast?.map Expr.stop).getD tok.pos
  | .goCall _ call => call.stop
  | .deferCall _ call => call.stop
  | .returns pos results =>
    (results.getLast?.map Expr.stop).getD (pos + storedSize Keyword.returnKw.spelling)
  | .branch tokPos kind label =>
    (label.map Ident.stop).getD (tokPos + storedSize kind.keyword.spelling)
  | .block b => b.stop
  | .ifThen _ _ _ _ (some orElse) => orElse.stop
  | .ifThen _ _ _ body none => body.stop
  | .switch _ _ _ body => body.rbrace + 1
  | .typeSwitch _ _ _ body => body.rbrace + 1
  | .select _ _ _ rbrace => rbrace + 1
  | .forLoop _ _ _ _ body => body.stop
  | .rangeLoop _ _ _ _ _ body => body.stop

end GoTree
