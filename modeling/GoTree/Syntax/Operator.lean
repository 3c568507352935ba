import GoTree.Token.Kind

/-!
# Operators and the words that choose between constructs

Each operator of the syntax tree is written by one symbol, and each jump or declaration by one
keyword.

## Main definitions

* `BinaryOp` with `BinaryOp.precedence`, `UnaryOp`, `AssignOp`, `StepOp`: the operators
* `Branch`, `ChanDir`, `DeclKind`: jumps, channel directions and kinds of declarations

## Main results

* `BinaryOp.ofSymbol?_eq_some_iff` and its companions: reading an operator undoes writing it
-/

namespace GoTree

/-- The operators between two operands. -/
inductive BinaryOp where
  | logicalOr | logicalAnd | equal | notEqual | less | lessEqual | greater | greaterEqual | add
  | subtract | bitOr | bitXor | multiply | divide | remainder | shiftLeft | shiftRight | bitAnd
  | bitAndNot
deriving DecidableEq, Repr

namespace BinaryOp

/-- The symbol that writes the operator. -/
def symbol : BinaryOp → Symbol
  | .logicalOr => .pipePipe
  | .logicalAnd => .ampAmp
  | .equal => .equal
  | .notEqual => .notEqual
  | .less => .less
  | .lessEqual => .lessEqual
  | .greater => .greater
  | .greaterEqual => .greaterEqual
  | .add => .plus
  | .subtract => .minus
  | .bitOr => .pipe
  | .bitXor => .caret
  | .multiply => .star
  | .divide => .slash
  | .remainder => .percent
  | .shiftLeft => .shiftLeft
  | .shiftRight => .shiftRight
  | .bitAnd => .amp
  | .bitAndNot => .ampCaret

/-- The operator a symbol writes. -/
def ofSymbol? : Symbol → Option BinaryOp
  | .pipePipe => some .logicalOr
  | .ampAmp => some .logicalAnd
  | .equal => some .equal
  | .notEqual => some .notEqual
  | .less => some .less
  | .lessEqual => some .lessEqual
  | .greater => some .greater
  | .greaterEqual => some .greaterEqual
  | .plus => some .add
  | .minus => some .subtract
  | .pipe => some .bitOr
  | .caret => some .bitXor
  | .star => some .multiply
  | .slash => some .divide
  | .percent => some .remainder
  | .shiftLeft => some .shiftLeft
  | .shiftRight => some .shiftRight
  | .amp => some .bitAnd
  | .ampCaret => some .bitAndNot
  | _ => none

/-- The name of the operator in outlines. -/
def title : BinaryOp → String
  | .logicalOr => "LogicalOr"
  | .logicalAnd => "LogicalAnd"
  | .equal => "Eq"
  | .notEqual => "Neq"
  | .less => "Lt"
  | .lessEqual => "Lte"
  | .greater => "Gt"
  | .greaterEqual => "Gte"
  | .add => "Add"
  | .subtract => "Sub"
  | .bitOr => "Or"
  | .bitXor => "Xor"
  | .multiply => "Mul"
  | .divide => "Div"
  | .remainder => "Rem"
  | .shiftLeft => "Shl"
  | .shiftRight => "Shr"
  | .bitAnd => "And"
  | .bitAndNot => "AndNot"

/-- How the operator is written. -/
def spelling (op : BinaryOp) : String :=
  op.symbol.spelling

theorem ofSymbol?_eq_some_iff {s : Symbol} {op : BinaryOp} :
    ofSymbol? s = some op ↔ op.symbol = s := by
  constructor
  · cases s <;> simp only [ofSymbol?, Option.some.injEq, reduceCtorEq, false_implies] <;>
      rintro rfl <;> rfl
  · rintro rfl
    cases op <;> rfl

/-- **How tightly the operator binds**, from one to five. -/
def precedence : BinaryOp → Nat
  | .logicalOr => 1
  | .logicalAnd => 2
  | .equal | .notEqual | .less | .lessEqual | .greater | .greaterEqual => 3
  | .add | .subtract | .bitOr | .bitXor => 4
  | .multiply | .divide | .remainder | .shiftLeft | .shiftRight | .bitAnd | .bitAndNot => 5

end BinaryOp

/-- The operators before one operand. -/
inductive UnaryOp where
  | plus | minus | not | complement | address | receive
deriving DecidableEq, Repr

namespace UnaryOp

/-- The symbol that writes the operator. -/
def symbol : UnaryOp → Symbol
  | .plus => .plus
  | .minus => .minus
  | .not => .bang
  | .complement => .caret
  | .address => .amp
  | .receive => .arrow

/-- The operator a symbol writes. -/
def ofSymbol? : Symbol → Option UnaryOp
  | .plus => some .plus
  | .minus => some .minus
  | .bang => some .not
  | .caret => some .complement
  | .amp => some .address
  | .arrow => some .receive
  | _ => none

/-- The name of the operator in outlines. -/
def title : UnaryOp → String
  | .plus => "Plus"
  | .minus => "Minus"
  | .not => "Not"
  | .complement => "Xor"
  | .address => "And"
  | .receive => "Arrow"

/-- How the operator is written. -/
def spelling (op : UnaryOp) : String :=
  op.symbol.spelling

theorem ofSymbol?_eq_some_iff {s : Symbol} {op : UnaryOp} :
    ofSymbol? s = some op ↔ op.symbol = s := by
  constructor
  · cases s <;> simp only [ofSymbol?, Option.some.injEq, reduceCtorEq, false_implies] <;>
      rintro rfl <;> rfl
  · rintro rfl
    cases op <;> rfl

end UnaryOp

/-- The operators of assignments. -/
inductive AssignOp where
  | define | assign | add | subtract | multiply | divide | remainder | bitAnd | bitOr | bitXor
  | shiftLeft | shiftRight | bitAndNot
deriving DecidableEq, Repr

namespace AssignOp

/-- The symbol that writes the operator. -/
def symbol : AssignOp → Symbol
  | .define => .define
  | .assign => .assign
  | .add => .plusAssign
  | .subtract => .minusAssign
  | .multiply => .starAssign
  | .divide => .slashAssign
  | .remainder => .percentAssign
  | .bitAnd => .ampAssign
  | .bitOr => .pipeAssign
  | .bitXor => .caretAssign
  | .shiftLeft => .shiftLeftAssign
  | .shiftRight => .shiftRightAssign
  | .bitAndNot => .ampCaretAssign

/-- The operator a symbol writes. -/
def ofSymbol? : Symbol → Option AssignOp
  | .define => some .define
  | .assign => some .assign
  | .plusAssign => some .add
  | .minusAssign => some .subtract
  | .starAssign => some .multiply
  | .slashAssign => some .divide
  | .percentAssign => some .remainder
  | .ampAssign => some .bitAnd
  | .pipeAssign => some .bitOr
  | .caretAssign => some .bitXor
  | .shiftLeftAssign => some .shiftLeft
  | .shiftRightAssign => some .shiftRight
  | .ampCaretAssign => some .bitAndNot
  | _ => none

/-- The name of the operator in outlines. -/
def title : AssignOp → String
  | .define => "Define"
  | .assign => "Assign"
  | .add => "Add"
  | .subtract => "Sub"
  | .multiply => "Mul"
  | .divide => "Div"
  | .remainder => "Rem"
  | .bitAnd => "And"
  | .bitOr => "Or"
  | .bitXor => "Xor"
  | .shiftLeft => "Shl"
  | .shiftRight => "Shr"
  | .bitAndNot => "AndNot"

/-- How the operator is written. -/
def spelling (op : AssignOp) : String :=
  op.symbol.spelling

theorem ofSymbol?_eq_some_iff {s : Symbol} {op : AssignOp} :
    ofSymbol? s = some op ↔ op.symbol = s := by
  constructor
  · cases s <;> simp only [ofSymbol?, Option.some.injEq, reduceCtorEq, false_implies] <;>
      rintro rfl <;> rfl
  · rintro rfl
    cases op <;> rfl

end AssignOp

/-- The operators of increment and decrement statements. -/
inductive StepOp where
  | increment | decrement
deriving DecidableEq, Repr

namespace StepOp

/-- The symbol that writes the operator. -/
def symbol : StepOp → Symbol
  | .increment => .plusPlus
  | .decrement => .minusMinus

/-- The operator a symbol writes. -/
def ofSymbol? : Symbol → Option StepOp
  | .plusPlus => some .increment
  | .minusMinus => some .decrement
  | _ => none

/-- The name of the operator in outlines. -/
def title : StepOp → String
  | .increment => "Inc"
  | .decrement => "Dec"

/-- How the operator is written. -/
def spelling (op : StepOp) : String :=
  op.symbol.spelling

end StepOp

/-- The statements that jump. -/
inductive Branch where
  | breakOut | continueOn | goto | fallThrough
deriving DecidableEq, Repr

namespace Branch

/-- The keyword of a jump. -/
def keyword : Branch → Keyword
  | .breakOut => .breakKw
  | .continueOn => .continueKw
  | .goto => .gotoKw
  | .fallThrough => .fallthroughKw

/-- The name of the jump in outlines. -/
def title : Branch → String
  | .breakOut => "Break"
  | .continueOn => "Continue"
  | .goto => "Goto"
  | .fallThrough => "Fallthrough"

end Branch

/-- Which way values go through a channel. -/
inductive ChanDir where
  | both | send | receive
deriving DecidableEq, Repr

/-- The name of the direction in outlines. -/
def ChanDir.title : ChanDir → String
  | .both => "Both"
  | .send => "Send"
  | .receive => "Recv"

/-- What a general declaration declares. -/
inductive DeclKind where
  | imports | constants | types | variables
deriving DecidableEq, Repr

namespace DeclKind

/-- The keyword of a declaration. -/
def keyword : DeclKind → Keyword
  | .imports => .importKw
  | .constants => .constKw
  | .types => .typeKw
  | .variables => .varKw

/-- The declaration a keyword opens. -/
def ofKeyword? : Keyword → Option DeclKind
  | .importKw => some .imports
  | .constKw => some .constants
  | .typeKw => some .types
  | .varKw => some .variables
  | _ => none

/-- The name of the declaration in outlines. -/
def title : DeclKind → String
  | .imports => "Import"
  | .constants => "Const"
  | .types => "Type"
  | .variables => "Var"

theorem ofKeyword?_eq_some_iff {k : Keyword} {d : DeclKind} :
    ofKeyword? k = some d ↔ d.keyword = k := by
  cases k <;> cases d <;> simp [ofKeyword?, keyword]

end DeclKind

end GoTree
