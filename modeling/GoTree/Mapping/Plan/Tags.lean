import GoTree.Syntax.Basic
import GoTree.Tree.Tag

/-!
# Tags of operators, literals and declarations

Which tags the generic tree gives to the operators, literals and names of a syntax tree.
-/

namespace GoTree

/-- The tags of a binary operation. -/
def BinaryOp.tags (op : BinaryOp) : List Tag :=
  [.binaryExpression,
    match op with
    | .logicalAnd => .logicalAnd
    | .logicalOr => .logicalOr
    | .equal => .equal
    | .notEqual => .notEqual
    | .less => .lessThan
    | .lessEqual => .lessOrEqual
    | .greater => .greaterThan
    | .greaterEqual => .greaterOrEqual
    | .add => .add
    | .subtract => .subtract
    | .multiply => .multiply
    | .divide => .divide
    | .remainder => .remainder
    | .bitAnd => .bitwiseAnd
    | .bitAndNot => .bitwiseAndNot
    | .bitOr => .bitwiseOr
    | .bitXor => .bitwiseXor
    | .shiftLeft => .leftShift
    | .shiftRight => .rightShift]

/-- The tags of an assignment. -/
def AssignOp.tags : AssignOp → List Tag
  | .define => [.assignment, .variableDeclaration]
  | .assign => [.assignment]
  | .add => [.assignment, .compoundAssignment, .plusAssignment]
  | .subtract => [.assignment, .compoundAssignment, .minusAssignment]
  | .multiply => [.assignment, .compoundAssignment, .multiplyAssignment]
  | .divide => [.assignment, .compoundAssignment, .divideAssignment]
  | .remainder => [.assignment, .compoundAssignment, .remainderAssignment]
  | .bitAnd => [.assignment, .compoundAssignment, .andAssignment]
  | .bitOr => [.assignment, .compoundAssignment, .orAssignment]
  | .bitXor => [.assignment, .compoundAssignment, .xorAssignment]
  | .shiftLeft => [.assignment, .compoundAssignment, .leftShiftAssignment]
  | .shiftRight => [.assignment, .compoundAssignment, .rightShiftAssignment]
  | .bitAndNot => [.assignment, .compoundAssignment, .andNotAssignment]

/-- The tags of a unary operation. -/
def UnaryOp.tags (op : UnaryOp) : List Tag :=
  [.unaryExpression,
    match op with
    | .plus => .unaryPlus
    | .minus => .unaryMinus
    | .complement => .bitwiseComplement
    | .not => .logicalComplement
    | .address => .reference
    | .receive => .channelDirection]

/-- The tags of an increment or decrement. -/
def StepOp.tags : StepOp → List Tag
  | .increment => [.unaryExpression, .postfixIncrement]
  | .decrement => [.unaryExpression, .postfixDecrement]

/-- The tags of a value reached through a pointer. -/
def pointerTags : List Tag :=
  [.unaryExpression, .pointer]

/-- The tag of the base of an integer literal. -/
def integerBase (value : String) : Tag :=
  match value.toList with
  | '0' :: c :: _ =>
    if c = 'x' ∨ c = 'X' then .hexLiteral
    else if c = 'o' ∨ c = 'O' ∨ c.isDigit ∨ c = '_' then .octalLiteral
    else .decimalLiteral
  | _ => .decimalLiteral

/-- The tags of a literal. -/
def BasicLit.tags (lit : BasicLit) : List Tag :=
  match lit.kind with
  | .string => [.literal, .stringLiteral]
  | .char => [.literal, .charLiteral]
  | .float => [.literal, .floatLiteral]
  | .imaginary => [.literal]
  | .int => [.literal, .intLiteral, integerBase lit.value]

/-- The tags of a name; some names stand for values. -/
def Ident.tags (ident : Ident) : List Tag :=
  if ident.name = "true" ∨ ident.name = "false" then [.literal, .booleanLiteral]
  else if ident.name = "nil" then [.literal, .nullLiteral]
  else [.identifier]

/-- The tag of a jump. -/
def Branch.tag : Branch → Tag
  | .breakOut => .breaks
  | .continueOn => .continues
  | .fallThrough => .fallsThrough
  | .goto => .goesTo

namespace DeclKind

/-- The tags of a general declaration. -/
def tags : DeclKind → List Tag
  | .imports => [.imports]
  | _ => []

/-- The tags of a value specification. -/
def valueTags : DeclKind → List Tag
  | .constants => [.constantDeclaration]
  | .variables => [.variableDeclaration]
  | _ => []

/-- The tags of a name that a value specification declares. -/
def nameTags : DeclKind → List Tag
  | .variables => [.variableName]
  | _ => []

end DeclKind

/-- The tags of a type specification: structs and interfaces are classes unless they are empty. -/
def Expr.specTags : Expr → List Tag
  | .structType _ fields => if fields.list.isEmpty then [] else [.classType]
  | .interfaceType _ methods => if methods.list.isEmpty then [] else [.classType]
  | _ => []

/-- The tags of an expression statement: a call of `panic` throws. -/
def Expr.statementTags : Expr → List Tag
  | .call (.ident callee) _ _ _ _ => if callee.name = "panic" then [.throws] else []
  | _ => []

end GoTree
