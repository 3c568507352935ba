import GoTree.Mapping.Plan.Basic
import GoTree.Mapping.Plan.Tags

/-!
# Plans of constructs

The plan of every construct of the syntax tree.  A construct is given the tags that its place in the
enclosing construct contributes, to which it adds its own, and the field it fills there.

## Main definitions

* `Reading`: whether an expression stands for a value or for a type
* `FieldRole`: what the fields of a list declare
* `Expr.plan`, `Stmt.plan`, `Block.plan`, `GenDecl.plan`: the recursive constructs
* `FuncDecl.plan`, `Decl.plan`: declarations
-/

namespace GoTree

open Plan

/-- What an expression stands for.  Parentheses and stars are read differently in types. -/
inductive Reading where
  | value | type
deriving DecidableEq, Repr

/-- What the fields of a list declare. -/
inductive FieldRole where
  | params | results | struct | interface
deriving DecidableEq, Repr

namespace FieldRole

/-- The brackets around the fields. -/
def brackets : FieldRole → Symbol × Symbol
  | .params | .results => (.leftParen, .rightParen)
  | .struct | .interface => (.leftBrace, .rightBrace)

/-- The tags of a field. -/
def tags (role : FieldRole) (named : Bool) : List Tag :=
  match role with
  | .params => [.parameter]
  | .results => if named then [.variableDeclaration] else []
  | .struct | .interface => []

/-- The tags of the names of a field. -/
def nameTags (role : FieldRole) (named : Bool) : List Tag :=
  match role with
  | .results => if named then [.result] else []
  | _ => []

end FieldRole

/-- The plan of a name. -/
def Ident.plan (ident : Ident) (tags : List Tag) (field : String) : Plan :=
  .token (tags ++ ident.tags) ident.pos ident.name (labelOf field "Ident")

/-- The plan of a literal. -/
def BasicLit.plan (lit : BasicLit) (tags : List Tag) (field : String) : Plan :=
  .token (tags ++ lit.tags) lit.pos lit.value (labelOf field "BasicLit")

/-- The plan of a list of names, each with the given tags. -/
def Ident.listPlan (names : List Ident) (tags : List Tag) : Plan :=
  .group [] "Names([]*Ident)" (elementsFrom (fun name field => name.plan tags field) 0 names)

mutual

/-- **The plan of an expression** or a type. -/
def Expr.plan (reading : Reading) (tags : List Tag) (field : String) : Expr → Plan
  | .ident i => i.plan tags field
  | .basicLit lit => lit.plan tags field
  | .ellipsis pos none => .symbol tags pos .ellipsis (labelOf field "Ellipsis")
  | .ellipsis pos (some elt) =>
    .group tags (labelOf field "Ellipsis")
      [.symbol [] pos .ellipsis "Ellipsis", elt.plan .type [.type] "Elt"]
  | .funcLit ty body =>
    .group (tags ++ [.functionLiteral]) (labelOf field "FuncLit")
      (keyword? [] ty.func .funcKw "Type.Func" ++
        [.group [] (labelOf "Type" "FuncType") ty.parts, body.plan [.block] "Body"])
  | .compositeLit ty lbrace elts rbrace =>
    .group tags (labelOf field "CompositeLit")
      (Expr.plan? .type [.type] "Type" ty ++
        [.symbol [] lbrace .leftBrace "Lbrace",
         .group [] "Elts([]Expr)" (Expr.plans .value (nested tags []) 0 elts),
         .symbol [] rbrace .rightBrace "Rbrace"])
  | .paren lparen x rparen =>
    match reading with
    | .value =>
      .group (tags ++ [.parenthesizedExpression]) (labelOf field "ParenExpr")
        [.symbol [.leftParenthesis] lparen .leftParen "Lparen", x.plan .value (nested tags []) "X",
         .symbol [.rightParenthesis] rparen .rightParen "Rparen"]
    | .type =>
      .group tags (labelOf field "ParenExpr")
        [.symbol [] lparen .leftParen "Lparen", x.plan .type [.type] "X",
         .symbol [] rparen .rightParen "Rparen"]
  | .selector x sel =>
    .group (tags ++ [.memberSelect]) (labelOf field "SelectorExpr")
      [x.plan .value [] "X", sel.plan [] "Sel"]
  | .index x lbrack i rbrack =>
    .group (tags ++ [.arrayAccessExpression]) (labelOf field "IndexExpr")
      [x.plan .value (nested tags [.arrayObjectExpression]) "X",
       .symbol [] lbrack .leftBracket "Lbrack",
       i.plan .value (nested tags [.arrayKeyExpression]) "Index",
       .symbol [] rbrack .rightBracket "Rbrack"]
  | .slice x lbrack low high max _ rbrack =>
    .group tags (labelOf field "SliceExpr")
      ([x.plan .value (nested tags []) "X", .symbol [] lbrack .leftBracket "Lbrack"] ++
        Expr.plan? .value (nested tags []) "Low" low ++
        Expr.plan? .value (nested tags []) "High" high ++
        Expr.plan? .value (nested tags []) "Max" max ++
        [.symbol [] rbrack .rightBracket "Rbrack"])
  | .typeAssert x lparen ty rparen =>
    .group tags (labelOf field "TypeAssertExpr")
      ([x.plan .value (nested tags []) "X", .symbol [] lparen .leftParen "Lparen"] ++
        Expr.plan? .type [.type] "Type" ty ++ [.symbol [] rparen .rightParen "Rparen"])
  | .call callee lparen args dots rparen =>
    .group (tags ++ [.call]) (labelOf field "CallExpr")
      ([callee.plan .value [] "Fun", .symbol [.leftParenthesis] lparen .leftParen "Lparen",
        .group [.arguments] "Args([]Expr)" (Expr.plans .value [.argument, .expression] 0 args)] ++
        symbol? [] dots .ellipsis "Ellipsis" ++
        [.symbol [.rightParenthesis] rparen .rightParen "Rparen"])
  | .star pos x =>
    match reading with
    | .value =>
      .group (tags ++ pointerTags) (labelOf field "StarExpr")
        [.symbol [.operator] pos .star "Star", x.plan .value (nested tags [.operand]) "X"]
    | .type =>
      .group tags (labelOf field "StarExpr")
        [.symbol [] pos .star "Star", x.plan .type [.type] "X"]
  | .unary opPos op x =>
    .group (tags ++ op.tags) (labelOf field "UnaryExpr")
      [.symbol [.operator] opPos op.symbol "Op", x.plan .value (nested tags [.operand]) "X"]
  | .binary x opPos op y =>
    .group (tags ++ op.tags) (labelOf field "BinaryExpr")
      [x.plan .value (nested tags [.leftOperand]) "X", .symbol [.operator] opPos op.symbol "Op",
       y.plan .value (nested tags [.rightOperand]) "Y"]
  | .keyValue key colon value =>
    .group tags (labelOf field "KeyValueExpr")
      [key.plan .value (nested tags []) "Key", .symbol [] colon .colon "Colon",
       value.plan .value (nested tags []) "Value"]
  | .arrayType lbrack len elt =>
    .group tags (labelOf field "ArrayType")
      ([.symbol [] lbrack .leftBracket "Lbrack"] ++ Expr.plan? .value [] "Len" len ++
        [elt.plan .type [.type] "Elt"])
  | .structType pos fields =>
    .group tags (labelOf field "StructType")
      [.keyword [] pos .structKw "Struct", fields.plan .struct [] "Fields"]
  | .funcType ty =>
    .group tags (labelOf field "FuncType") (keyword? [] ty.func .funcKw "Func" ++ ty.parts)
  | .interfaceType pos methods =>
    .group tags (labelOf field "InterfaceType")
      [.keyword [] pos .interfaceKw "Interface", methods.plan .interface [] "Methods"]
  | .mapType pos key value =>
    .group tags (labelOf field "MapType")
      [.keyword [] pos .mapKw "Map", key.plan .type [.type] "Key",
       value.plan .type [.type] "Value"]
  | .chanType pos arrow dir value =>
    .group tags (labelOf field "ChanType")
      ((match dir with
        | .receive => [.symbol [] pos .arrow "Begin"]
        | .send => .keyword [] pos .chanKw "Begin" :: symbol? [] arrow .arrow "Arrow"
        | .both => [.keyword [] pos .chanKw "Begin"]) ++
        [value.plan .type [.type] "Value"])

/-- The plan of an expression that may be absent. -/
def Expr.plan? (reading : Reading) (tags : List Tag) (field : String) : Option Expr → List Plan
  | none => []
  | some e => [e.plan reading tags field]

/-- The plans of the expressions of a list from index `i` on. -/
def Expr.plans (reading : Reading) (tags : List Tag) (i : Nat) : List Expr → List Plan
  | [] => []
  | e :: rest => e.plan reading tags (elementField i) :: Expr.plans reading tags (i + 1) rest

/-- The parts of a function type, without its keyword. -/
def FuncType.parts : FuncType → List Plan
  | ⟨_, params, results⟩ =>
    params.plan .params [.parameterList] "Params" :: FieldList.resultPlan? results

/-- The plan of results that may be absent. -/
def FieldList.resultPlan? : Option FieldList → List Plan
  | none => []
  | some results => [results.plan .results [.resultList] "Results"]

/-- **The plan of a list of fields.** -/
def FieldList.plan (role : FieldRole) (tags : List Tag) (field : String) : FieldList → Plan
  | ⟨opening, list, closing⟩ =>
    .group tags (labelOf field "FieldList")
      (symbol? [] opening role.brackets.1 "Opening" ++ Field.plans role 0 list ++
        symbol? [] closing role.brackets.2 "Closing")

/-- The plans of the fields of a list from index `i` on. -/
def Field.plans (role : FieldRole) (i : Nat) : List Field → List Plan
  | [] => []
  | f :: rest => f.plan role (elementField i) :: Field.plans role (i + 1) rest

/-- The plan of a field. -/
def Field.plan (role : FieldRole) (field : String) : Field → Plan
  | ⟨names, ty, tag⟩ =>
    .group (role.tags !names.isEmpty) (labelOf field "Field")
      ([Ident.listPlan names (role.nameTags !names.isEmpty), ty.plan .type [.type] "Type"] ++
        (tag.map fun lit => lit.plan [] "Tag").toList)

/-- **The plan of a block.** -/
def Block.plan (tags : List Tag) (field : String) : Block → Plan
  | ⟨lbrace, list, rbrace⟩ =>
    .group tags (labelOf field "BlockStmt")
      ([.symbol [] lbrace .leftBrace "Lbrace"] ++ Stmt.plans 0 list ++
        [.symbol [] rbrace .rightBrace "Rbrace"])

/-- **The plan of a statement.**  A statement left out has none. -/
def Stmt.plan (tags : List Tag) (field : String) : Stmt → Plan
  | .empty e =>
    if e.implicit then .nothing
    else .symbol (tags ++ [.emptyStatement]) e.semicolon .semicolon (labelOf field "EmptyStmt")
  | .block b => b.plan (tags ++ [.block, .statement]) field
  | .labeled label colon stmt =>
    .group (tags ++ [.label]) (labelOf field "LabeledStmt")
      [label.plan [] "Label", .symbol [] colon .colon "Colon", stmt.plan [] "Stmt"]
  | .decl d =>
    .group (tags ++ [.statement]) (labelOf field "DeclStmt") [d.plan "Decl"]
  | .expr x =>
    .group (tags ++ [.statement] ++ x.statementTags) (labelOf field "ExprStmt")
      [x.plan .value [.expression] "X"]
  | .send chan arrow value =>
    .group (tags ++ [.statement]) (labelOf field "SendStmt")
      [chan.plan .value [.expression] "Chan", .symbol [] arrow .arrow "Arrow",
       value.plan .value [.expression] "Value"]
  | .step x tokPos op =>
    .group (tags ++ op.tags ++ [.statement]) (labelOf field "IncDecStmt")
      [x.plan .value [.operand] "X", .symbol [.operator] tokPos op.symbol "Tok"]
  | .assign lhs tok rhs =>
    .group (tags ++ tok.op.tags ++ [.statement]) (labelOf field "AssignStmt")
      [.group [.assignmentTargetList] "Lhs([]Expr)" (Expr.plans .value [.assignmentTarget] 0 lhs),
       .symbol [.assignmentOperator] tok.pos tok.op.symbol "Tok",
       .group [.assignmentValueList] "Rhs([]Expr)"
        (Expr.plans .value [.assignmentValue, .expression] 0 rhs)]
  | .goCall pos call =>
    .group (tags ++ [.statement]) (labelOf field "GoStmt")
      [.keyword [] pos .goKw "Go", call.plan .value [.expression] "Call"]
  | .deferCall pos call =>
    .group (tags ++ [.statement]) (labelOf field "DeferStmt")
      [.keyword [] pos .deferKw "Defer", call.plan .value [.expression] "Call"]
  | .returns pos results =>
    .group (tags ++ [.returns, .statement]) (labelOf field "ReturnStmt")
      (.keyword [] pos .returnKw "Return" :: Expr.plans .value [.expression] 0 results)
  | .branch tokPos kind label =>
    .group (tags ++ [kind.tag, .statement]) (labelOf field "BranchStmt")
      (.keyword [] tokPos kind.keyword "Tok" ::
        (label.map fun name => name.plan [.branchLabel] "Label").toList)
  | .ifThen pos init cond body orElse =>
    .group (tags ++ [.ifThen, .statement]) (labelOf field "IfStmt")
      ([.keyword [.ifKeyword] pos .ifKw "If",
        .group [.condition] "InitAndCond"
          (Stmt.plan? [] "Init" init ++ [cond.plan .value [.expression] "Cond"]),
        body.plan [.thenBranch, .block] "Body"] ++ Stmt.elsePlan? orElse)
  | .switch pos init tag body =>
    .group (tags ++ [.switch, .statement]) (labelOf field "SwitchStmt")
      (.keyword [] pos .switchKw "Switch" :: Stmt.plan? [] "Init" init ++
        Expr.plan? .value [.expression] "Tag" tag ++ body.parts .value)
  | .typeSwitch pos init guard body =>
    .group (tags ++ [.switch, .statement]) (labelOf field "TypeSwitchStmt")
      (.keyword [] pos .switchKw "Switch" :: Stmt.plan? [] "Init" init ++
        [guard.plan [] "Assign"] ++ body.parts .type)
  | .select pos lbrace clauses rbrace =>
    .group (tags ++ [.statement]) (labelOf field "SelectStmt")
      ([.keyword [] pos .selectKw "Select", .symbol [] lbrace .leftBrace "Lbrace"] ++
        CommClause.plans 0 clauses ++ [.symbol [] rbrace .rightBrace "Rbrace"])
  | .forLoop pos init cond post body =>
    .group (tags ++ [.loop, .forLoop, .statement]) (labelOf field "ForStmt")
      (.keyword [.forKeyword] pos .forKw "For" :: Stmt.plan? [.forInit] "Init" init ++
        Expr.plan? .value [.condition, .expression] "Cond" cond ++
        Stmt.plan? [.forUpdate] "Post" post ++ [body.plan [.body, .block] "Body"])
  | .rangeLoop pos key value tok x body =>
    .group (tags ++ [.loop, .forEach, .statement]) (labelOf field "RangeStmt")
      (.keyword [.forKeyword] pos .forKw "For" :: Expr.plan? .value [] "Key" key ++
        Expr.plan? .value [] "Value" value ++
        (tok.map fun t => .symbol [.assignmentOperator] t.pos t.op.symbol "Tok").toList ++
        [x.plan .value [.expression] "X", body.plan [.body, .block] "Body"])

/-- The plan of a statement that may be absent. -/
def Stmt.plan? (tags : List Tag) (field : String) : Option Stmt → List Plan
  | none => []
  | some s => [s.plan tags field]

/-- The plan of what follows the body of an `if`; a block there is no statement of its own. -/
def Stmt.elsePlan? : Option Stmt → List Plan
  | none => []
  | some (.block b) => [b.plan [.elseBranch, .block] "Else"]
  | some s => [s.plan [.elseBranch] "Else"]

/-- The plans of the statements of a list from index `i` on. -/
def Stmt.plans (i : Nat) : List Stmt → List Plan
  | [] => []
  | s :: rest => s.plan [] (elementField i) :: Stmt.plans (i + 1) rest

/-- The braces and clauses of a switch, whose values are read as `reading`. -/
def CaseBlock.parts (reading : Reading) : CaseBlock → List Plan
  | ⟨lbrace, clauses, rbrace⟩ =>
    [.symbol [] lbrace .leftBrace "Lbrace"] ++ CaseClause.plans reading 0 clauses ++
      [.symbol [] rbrace .rightBrace "Rbrace"]

/-- The plans of the clauses of a switch from index `i` on. -/
def CaseClause.plans (reading : Reading) (i : Nat) : List CaseClause → List Plan
  | [] => []
  | clause :: rest =>
    clause.plan reading (elementField i) :: CaseClause.plans reading (i + 1) rest

/-- The plan of a clause of a switch. -/
def CaseClause.plan (reading : Reading) (field : String) : CaseClause → Plan
  | ⟨pos, list, colon, body⟩ =>
    .group (if list.isEmpty then [.caseClause, .defaultCase] else [.caseClause])
      (labelOf field "CaseClause")
      (.keyword [] pos (if list.isEmpty then .defaultKw else .caseKw) "Case" ::
        Expr.plans reading
          (match reading with
            | .value => [.condition, .expression]
            | .type => [.condition, .type]) 0 list ++
        .symbol [] colon .colon "Colon" :: Stmt.plans 0 body)

/-- The plans of the clauses of a select from index `i` on. -/
def CommClause.plans (i : Nat) : List CommClause → List Plan
  | [] => []
  | clause :: rest => clause.plan (elementField i) :: CommClause.plans (i + 1) rest

/-- The plan of a clause of a select. -/
def CommClause.plan (field : String) : CommClause → Plan
  | ⟨pos, comm, colon, body⟩ =>
    .group [] (labelOf field "CommClause")
      (.keyword [] pos (if comm.isSome then .caseKw else .defaultKw) "Case" ::
        Stmt.plan? [] "Comm" comm ++ .symbol [] colon .colon "Colon" :: Stmt.plans 0 body)

/-- **The plan of a general declaration.** -/
def GenDecl.plan (field : String) : GenDecl → Plan
  | ⟨tokPos, kind, lparen, specs, rparen⟩ =>
    .group kind.tags (labelOf field "GenDecl")
      (.keyword [] tokPos kind.keyword "Tok" :: symbol? [] lparen .leftParen "Lparen" ++
        [.group [] "Specs([]Spec)" (Spec.plans kind 0 specs)] ++
        symbol? [] rparen .rightParen "Rparen")

/-- The plans of the specifications of a declaration from index `i` on. -/
def Spec.plans (kind : DeclKind) (i : Nat) : List Spec → List Plan
  | [] => []
  | spec :: rest => spec.plan kind (elementField i) :: Spec.plans kind (i + 1) rest

/-- The plan of a specification. -/
def Spec.plan (kind : DeclKind) (field : String) : Spec → Plan
  | .imported name path =>
    .group [.importEntry] (labelOf field "ImportSpec")
      ((name.map fun n => n.plan [] "Name").toList ++ [path.plan [] "Path"])
  | .value names ty values =>
    .group kind.valueTags (labelOf field "ValueSpec")
      (Ident.listPlan names kind.nameTags :: Expr.plan? .type [.type] "Type" ty ++
        [.group [] "Values([]Expr)" (Expr.plans .value [.expression] 0 values)])
  | .type name assign ty =>
    .group ty.specTags (labelOf field "TypeSpec")
      (name.plan [] "Name" :: symbol? [] assign .assign "Assign" ++
        [ty.plan .type [.type] "Type"])

end

/-- **The plan of a function declaration.** -/
def FuncDecl.plan (decl : FuncDecl) (field : String) : Plan :=
  .group [.function] (labelOf field "FuncDecl")
    (.keyword [] decl.func .funcKw "Type.Func" ::
      (decl.recv.map fun recv => recv.plan .params [.parameterList] "Recv").toList ++
      [decl.name.plan [.functionName] "Name",
       .group [] (labelOf "Type" "FuncType") decl.ty.parts] ++
      (decl.body.map fun body => body.plan [.block] "Body").toList)

/-- The plan of a top-level declaration. -/
def Decl.plan (decl : Decl) (field : String) : Plan :=
  match decl with
  | .gen d => d.plan field
  | .func d => d.plan field

end GoTree
