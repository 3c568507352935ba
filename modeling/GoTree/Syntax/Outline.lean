import GoTree.Syntax.Basic
import GoTree.Text.Outline

/-!
# Outlines of syntax trees

How a syntax tree is written out for a reader: every construct as a record of its parts, in a fixed
order.

## Main definitions

* `Expr.outline`, `Stmt.outline`, `GenDecl.outline`: the recursive constructs
* `File.outline`: a whole file
-/

namespace GoTree

/-- The name of a literal class in outlines. -/
def Literal.title : Literal → String
  | .int => "Int"
  | .float => "Float"
  | .imaginary => "Imag"
  | .char => "Char"
  | .string => "String"

/-- The outline of a name. -/
def Ident.outline (ident : Ident) : Outline :=
  .record "Ident" [⟨"pos", .number ident.pos⟩, ⟨"name", .text ident.name⟩]

/-- The outline of a literal. -/
def BasicLit.outline (lit : BasicLit) : Outline :=
  .record "BasicLit"
    [⟨"pos", .number lit.pos⟩, ⟨"kind", .word lit.kind.title⟩, ⟨"value", .text lit.value⟩]

/-- The outline of a comment. -/
def Comment.outline (comment : Comment) : Outline :=
  .record "Comment" [⟨"slash", .number comment.slash⟩, ⟨"text", .text comment.text⟩]

/-- The outline of a group of comments. -/
def CommentGroup.outline (group : CommentGroup) : Outline :=
  .record "CommentGroup" [⟨"list", .list (group.list.map Comment.outline)⟩]

/-- The outline of an assignment operator and its offset. -/
def AssignTok.outline (tok : AssignTok) : Outline :=
  .tuple "" [.number tok.pos, .word tok.op.title]

namespace Outline

/-- A construct wrapped in the name of its class. -/
def variant (name : String) (value : Outline) : Outline :=
  .tuple name [value]

/-- An offset that may be absent. -/
def offset? (offset : Option Offset) : Outline :=
  .option .number offset

end Outline

mutual

/-- The outline of an expression. -/
def Expr.outline : Expr → Outline
  | .ident i => .variant "Ident" i.outline
  | .basicLit lit => .variant "BasicLit" lit.outline
  | .ellipsis pos elt =>
    .variant "Ellipsis" (.record "Ellipsis" [⟨"pos", .number pos⟩, ⟨"elt", Expr.outline? elt⟩])
  | .funcLit ty body =>
    .variant "FuncLit" (.record "FuncLit" [⟨"ty", ty.outline⟩, ⟨"body", body.outline⟩])
  | .compositeLit ty lbrace elts rbrace =>
    .variant "CompositeLit" (.record "CompositeLit"
      [⟨"ty", Expr.outline? ty⟩, ⟨"lbrace", .number lbrace⟩, ⟨"elts", .list (Expr.outlines elts)⟩,
       ⟨"rbrace", .number rbrace⟩])
  | .paren lparen x rparen =>
    .variant "Paren" (.record "ParenExpr"
      [⟨"lparen", .number lparen⟩, ⟨"x", x.outline⟩, ⟨"rparen", .number rparen⟩])
  | .selector x sel =>
    .variant "Selector" (.record "SelectorExpr" [⟨"x", x.outline⟩, ⟨"sel", sel.outline⟩])
  | .index x lbrack i rbrack =>
    .variant "Index" (.record "IndexExpr"
      [⟨"x", x.outline⟩, ⟨"lbrack", .number lbrack⟩, ⟨"index", i.outline⟩,
       ⟨"rbrack", .number rbrack⟩])
  | .slice x lbrack low high max slice3 rbrack =>
    .variant "Slice" (.record "SliceExpr"
      [⟨"x", x.outline⟩, ⟨"lbrack", .number lbrack⟩, ⟨"low", Expr.outline? low⟩,
       ⟨"high", Expr.outline? high⟩, ⟨"max", Expr.outline? max⟩, ⟨"slice3", .truth slice3⟩,
       ⟨"rbrack", .number rbrack⟩])
  | .typeAssert x lparen ty rparen =>
    .variant "TypeAssert" (.record "TypeAssertExpr"
      [⟨"x", x.outline⟩, ⟨"lparen", .number lparen⟩, ⟨"ty", Expr.outline? ty⟩,
       ⟨"rparen", .number rparen⟩])
  | .call callee lparen args dots rparen =>
    .variant "Call" (.record "CallExpr"
      [⟨"fun", callee.outline⟩, ⟨"lparen", .number lparen⟩, ⟨"args", .list (Expr.outlines args)⟩,
       ⟨"ellipsis", .offset? dots⟩, ⟨"rparen", .number rparen⟩])
  | .star pos x =>
    .variant "Star" (.record "StarExpr" [⟨"star", .number pos⟩, ⟨"x", x.outline⟩])
  | .unary opPos op x =>
    .variant "Unary" (.record "UnaryExpr"
      [⟨"op_pos", .number opPos⟩, ⟨"op", .word op.title⟩, ⟨"x", x.outline⟩])
  | .binary x opPos op y =>
    .variant "Binary" (.record "BinaryExpr"
      [⟨"x", x.outline⟩, ⟨"op_pos", .number opPos⟩, ⟨"op", .word op.title⟩, ⟨"y", y.outline⟩])
  | .keyValue key colon value =>
    .variant "KeyValue" (.record "KeyValueExpr"
      [⟨"key", key.outline⟩, ⟨"colon", .number colon⟩, ⟨"value", value.outline⟩])
  | .arrayType lbrack len elt =>
    .variant "ArrayType" (.record "ArrayType"
      [⟨"lbrack", .number lbrack⟩, ⟨"len", Expr.outline? len⟩, ⟨"elt", elt.outline⟩])
  | .structType pos fields =>
    .variant "StructType" (.record "StructType"
      [⟨"struct_pos", .number pos⟩, ⟨"fields", fields.outline⟩])
  | .funcType ty => .variant "FuncType" ty.outline
  | .interfaceType pos methods =>
    .variant "InterfaceType" (.record "InterfaceType"
      [⟨"interface_pos", .number pos⟩, ⟨"methods", methods.outline⟩])
  | .mapType pos key value =>
    .variant "MapType" (.record "MapType"
      [⟨"map_pos", .number pos⟩, ⟨"key", key.outline⟩, ⟨"value", value.outline⟩])
  | .chanType pos arrow dir value =>
    .variant "ChanType" (.record "ChanType"
      [⟨"begin", .number pos⟩, ⟨"arrow", .offset? arrow⟩, ⟨"dir", .word dir.title⟩,
       ⟨"value", value.outline⟩])

/-- The outline of an expression that may be absent. -/
def Expr.outline? : Option Expr → Outline
  | none => .absent
  | some e => .present e.outline

/-- The outlines of several expressions. -/
def Expr.outlines : List Expr → List Outline
  | [] => []
  | e :: es => e.outline :: Expr.outlines es

/-- The outline of a field. -/
def Field.outline : Field → Outline
  | ⟨names, ty, tag⟩ =>
    .record "Field"
      [⟨"names", .list (names.map Ident.outline)⟩, ⟨"ty", ty.outline⟩,
       ⟨"tag", .option BasicLit.outline tag⟩]

/-- The outlines of several fields. -/
def Field.outlines : List Field → List Outline
  | [] => []
  | field :: rest => field.outline :: Field.outlines rest

/-- The outline of a list of fields. -/
def FieldList.outline : FieldList → Outline
  | ⟨opening, list, closing⟩ =>
    .record "FieldList"
      [⟨"opening", .offset? opening⟩, ⟨"list", .list (Field.outlines list)⟩,
       ⟨"closing", .offset? closing⟩]

/-- The outline of a list of fields that may be absent. -/
def FieldList.outline? : Option FieldList → Outline
  | none => .absent
  | some list => .present list.outline

/-- The outline of a function type. -/
def FuncType.outline : FuncType → Outline
  | ⟨func, params, results⟩ =>
    .record "FuncType"
      [⟨"func", .offset? func⟩, ⟨"params", params.outline⟩,
       ⟨"results", FieldList.outline? results⟩]

/-- The outline of a block. -/
def Block.outline : Block → Outline
  | ⟨lbrace, list, rbrace⟩ =>
    .record "BlockStmt"
      [⟨"lbrace", .number lbrace⟩, ⟨"list", .list (Stmt.outlines list)⟩,
       ⟨"rbrace", .number rbrace⟩]

/-- The outline of a statement. -/
def Stmt.outline : Stmt → Outline
  | .decl d => .variant "Decl" d.outline
  | .empty e =>
    .variant "Empty" (.record "EmptyStmt"
      [⟨"semicolon", .number e.semicolon⟩, ⟨"implicit", .truth e.implicit⟩])
  | .labeled label colon stmt =>
    .variant "Labeled" (.record "LabeledStmt"
      [⟨"label", label.outline⟩, ⟨"colon", .number colon⟩, ⟨"stmt", stmt.outline⟩])
  | .expr x => .variant "Expr" x.outline
  | .send chan arrow value =>
    .variant "Send" (.record "SendStmt"
      [⟨"chan", chan.outline⟩, ⟨"arrow", .number arrow⟩, ⟨"value", value.outline⟩])
  | .step x tokPos op =>
    .variant "IncDec" (.record "IncDecStmt"
      [⟨"x", x.outline⟩, ⟨"tok_pos", .number tokPos⟩, ⟨"op", .word op.title⟩])
  | .assign lhs tok rhs =>
    .variant "Assign" (.record "AssignStmt"
      [⟨"lhs", .list (Expr.outlines lhs)⟩, ⟨"tok_pos", .number tok.pos⟩,
       ⟨"op", .word tok.op.title⟩, ⟨"rhs", .list (Expr.outlines rhs)⟩])
  | .goCall pos call =>
    .variant "Go" (.record "GoStmt" [⟨"go", .number pos⟩, ⟨"call", call.outline⟩])
  | .deferCall pos call =>
    .variant "Defer" (.record "DeferStmt" [⟨"defer", .number pos⟩, ⟨"call", call.outline⟩])
  | .returns pos results =>
    .variant "Return" (.record "ReturnStmt"
      [⟨"return_pos", .number pos⟩, ⟨"results", .list (Expr.outlines results)⟩])
  | .branch tokPos kind label =>
    .variant "Branch" (.record "BranchStmt"
      [⟨"tok_pos", .number tokPos⟩, ⟨"kind", .word kind.title⟩,
       ⟨"label", .option Ident.outline label⟩])
  | .block b => .variant "Block" b.outline
  | .ifThen pos init cond body orElse =>
    .variant "If" (.record "IfStmt"
      [⟨"if_pos", .number pos⟩, ⟨"init", Stmt.outline? init⟩, ⟨"cond", cond.outline⟩,
       ⟨"body", body.outline⟩, ⟨"else_branch", Stmt.outline? orElse⟩])
  | .switch pos init tag body =>
    .variant "Switch" (.record "SwitchStmt"
      [⟨"switch", .number pos⟩, ⟨"init", Stmt.outline? init⟩, ⟨"tag", Expr.outline? tag⟩,
       ⟨"body", body.outline⟩])
  | .typeSwitch pos init guard body =>
    .variant "TypeSwitch" (.record "TypeSwitchStmt"
      [⟨"switch", .number pos⟩, ⟨"init", Stmt.outline? init⟩, ⟨"assign", guard.outline⟩,
       ⟨"body", body.outline⟩])
  | .select pos lbrace clauses rbrace =>
    .variant "Select" (.record "SelectStmt"
      [⟨"select", .number pos⟩, ⟨"lbrace", .number lbrace⟩,
       ⟨"clauses", .list (CommClause.outlines clauses)⟩, ⟨"rbrace", .number rbrace⟩])
  | .forLoop pos init cond post body =>
    .variant "For" (.record "ForStmt"
      [⟨"for_pos", .number pos⟩, ⟨"init", Stmt.outline? init⟩, ⟨"cond", Expr.outline? cond⟩,
       ⟨"post", Stmt.outline? post⟩, ⟨"body", body.outline⟩])
  | .rangeLoop pos key value tok x body =>
    .variant "Range" (.record "RangeStmt"
      [⟨"for_pos", .number pos⟩, ⟨"key", Expr.outline? key⟩, ⟨"value", Expr.outline? value⟩,
       ⟨"tok", .option AssignTok.outline tok⟩, ⟨"x", x.outline⟩, ⟨"body", body.outline⟩])

/-- The outline of a statement that may be absent. -/
def Stmt.outline? : Option Stmt → Outline
  | none => .absent
  | some s => .present s.outline

/-- The outlines of several statements. -/
def Stmt.outlines : List Stmt → List Outline
  | [] => []
  | s :: ss => s.outline :: Stmt.outlines ss

/-- The outline of a clause of a switch. -/
def CaseClause.outline : CaseClause → Outline
  | ⟨pos, list, colon, body⟩ =>
    .record "CaseClause"
      [⟨"case", .number pos⟩, ⟨"list", .list (Expr.outlines list)⟩, ⟨"colon", .number colon⟩,
       ⟨"body", .list (Stmt.outlines body)⟩]

/-- The outlines of several clauses of a switch. -/
def CaseClause.outlines : List CaseClause → List Outline
  | [] => []
  | clause :: rest => clause.outline :: CaseClause.outlines rest

/-- The outline of the body of a switch. -/
def CaseBlock.outline : CaseBlock → Outline
  | ⟨lbrace, clauses, rbrace⟩ =>
    .record "CaseBlock"
      [⟨"lbrace", .number lbrace⟩, ⟨"clauses", .list (CaseClause.outlines clauses)⟩,
       ⟨"rbrace", .number rbrace⟩]

/-- The outline of a clause of a select. -/
def CommClause.outline : CommClause → Outline
  | ⟨pos, comm, colon, body⟩ =>
    .record "CommClause"
      [⟨"case", .number pos⟩, ⟨"comm", Stmt.outline? comm⟩, ⟨"colon", .number colon⟩,
       ⟨"body", .list (Stmt.outlines body)⟩]

/-- The outlines of several clauses of a select. -/
def CommClause.outlines : List CommClause → List Outline
  | [] => []
  | clause :: rest => clause.outline :: CommClause.outlines rest

/-- The outline of a general declaration. -/
def GenDecl.outline : GenDecl → Outline
  | ⟨tokPos, kind, lparen, specs, rparen⟩ =>
    .record "GenDecl"
      [⟨"tok_pos", .number tokPos⟩, ⟨"keyword", .word kind.title⟩, ⟨"lparen", .offset? lparen⟩,
       ⟨"specs", .list (Spec.outlines specs)⟩, ⟨"rparen", .offset? rparen⟩]

/-- The outline of a specification. -/
def Spec.outline : Spec → Outline
  | .imported name path =>
    .variant "Import" (.record "ImportSpec"
      [⟨"name", .option Ident.outline name⟩, ⟨"path", path.outline⟩])
  | .value names ty values =>
    .variant "Value" (.record "ValueSpec"
      [⟨"names", .list (names.map Ident.outline)⟩, ⟨"ty", Expr.outline? ty⟩,
       ⟨"values", .list (Expr.outlines values)⟩])
  | .type name assign ty =>
    .variant "Type" (.record "TypeSpec"
      [⟨"name", name.outline⟩, ⟨"assign", .offset? assign⟩, ⟨"ty", ty.outline⟩])

/-- The outlines of several specifications. -/
def Spec.outlines : List Spec → List Outline
  | [] => []
  | spec :: rest => spec.outline :: Spec.outlines rest

end

/-- The outline of a function declaration. -/
def FuncDecl.outline (decl : FuncDecl) : Outline :=
  .record "FuncDecl"
    [⟨"func", .number decl.func⟩, ⟨"recv", .option FieldList.outline decl.recv⟩,
     ⟨"name", decl.name.outline⟩, ⟨"ty", decl.ty.outline⟩,
     ⟨"body", .option Block.outline decl.body⟩]

/-- The outline of a declaration. -/
def Decl.outline : Decl → Outline
  | .gen decl => .variant "Gen" decl.outline
  | .func decl => .variant "Func" decl.outline

/-- The outline of a file. -/
def File.outline (file : File) : Outline :=
  .record "File"
    [⟨"package", .number file.package⟩, ⟨"name", file.name.outline⟩,
     ⟨"decls", .list (file.decls.map Decl.outline)⟩,
     ⟨"comments", .list (file.comments.map CommentGroup.outline)⟩, ⟨"size", .number file.size⟩]

end GoTree
