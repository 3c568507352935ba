/-!
# Tags

The vocabulary of the generic tree.  A node carries the tags that say what it is, in any language:
a loop, a condition, the left operand of an addition.

## Main definitions

* `Tag`, `Tag.all`: the tags, in the order in which they are listed
* `Tag.name`, `Tag.ofName?`: what a tag is called
-/

namespace GoTree

/-- What a node of the generic tree is. -/
inductive Tag where
  | compilationUnit | comment | structuredComment | package | endOfFile | function
  | functionLiteral | functionName | constantDeclaration | variableDeclaration | variableName
  | imports | importEntry | goesTo | branchLabel | block | arguments | argument | call | ifThen
  | ifKeyword | elseKeyword | elseBranch | condition | classType | statement | emptyStatement
  | assignment | compoundAssignment | assignmentTargetList | assignmentTarget
  | assignmentOperator | assignmentValueList | assignmentValue | identifier | type | keyword
  | memberSelect | literal | floatLiteral | intLiteral | decimalLiteral | hexLiteral
  | octalLiteral | stringLiteral | charLiteral | booleanLiteral | nullLiteral | expression
  | parameterList | parameter | resultList | result | returns | binaryExpression | leftOperand
  | rightOperand | parenthesizedExpression | leftParenthesis | rightParenthesis | switch
  | caseClause | label | defaultCase | loop | forLoop | forKeyword | forInit | forUpdate | body
  | forEach | breaks | continues | fallsThrough | operator | add | subtract | multiply | divide
  | remainder | bitwiseAnd | bitwiseAndNot | bitwiseOr | bitwiseXor | leftShift | rightShift
  | equal | logicalAnd | logicalOr | notEqual | lessThan | lessOrEqual | greaterThan
  | greaterOrEqual | thenBranch | throws | unsupported | plusAssignment | minusAssignment
  | orAssignment | xorAssignment | divideAssignment | multiplyAssignment | remainderAssignment
  | rightShiftAssignment | leftShiftAssignment | andAssignment | andNotAssignment
  | unaryExpression | operand | unaryMinus | unaryPlus | logicalComplement | bitwiseComplement
  | pointer | reference | channelDirection | postfixIncrement | postfixDecrement
  | arrayAccessExpression | arrayObjectExpression | arrayKeyExpression | declList
deriving DecidableEq, Repr

namespace Tag

/-- The whole vocabulary, in order. -/
def all : List Tag :=
  [.compilationUnit, .comment, .structuredComment, .package, .endOfFile, .function,
   .functionLiteral, .functionName, .constantDeclaration, .variableDeclaration, .variableName,
   .imports, .importEntry, .goesTo, .branchLabel, .block, .arguments, .argument, .call, .ifThen,
   .ifKeyword, .elseKeyword, .elseBranch, .condition, .classType, .statement, .emptyStatement,
   .assignment, .compoundAssignment, .assignmentTargetList, .assignmentTarget,
   .assignmentOperator, .assignmentValueList, .assignmentValue, .identifier, .type, .keyword,
   .memberSelect, .literal, .floatLiteral, .intLiteral, .decimalLiteral, .hexLiteral,
   .octalLiteral, .stringLiteral, .charLiteral, .booleanLiteral, .nullLiteral, .expression,
   .parameterList, .parameter, .resultList, .result, .returns, .binaryExpression, .leftOperand,
   .rightOperand, .parenthesizedExpression, .leftParenthesis, .rightParenthesis, .switch,
   .caseClause, .label, .defaultCase, .loop, .forLoop, .forKeyword, .forInit, .forUpdate, .body,
   .forEach, .breaks, .continues, .fallsThrough, .operator, .add, .subtract, .multiply, .divide,
   .remainder, .bitwiseAnd, .bitwiseAndNot, .bitwiseOr, .bitwiseXor, .leftShift, .rightShift,
   .equal, .logicalAnd, .logicalOr, .notEqual, .lessThan, .lessOrEqual, .greaterThan,
   .greaterOrEqual, .thenBranch, .throws, .unsupported, .plusAssignment, .minusAssignment,
   .orAssignment, .xorAssignment, .divideAssignment, .multiplyAssignment, .remainderAssignment,
   .rightShiftAssignment, .leftShiftAssignment, .andAssignment, .andNotAssignment,
   .unaryExpression, .operand, .unaryMinus, .unaryPlus, .logicalComplement, .bitwiseComplement,
   .pointer, .reference, .channelDirection, .postfixIncrement, .postfixDecrement,
   .arrayAccessExpression, .arrayObjectExpression, .arrayKeyExpression, .declList]

/-- What a tag is called. -/
def name : Tag → String
  | .compilationUnit => "COMPILATION_UNIT"
  | .comment => "COMMENT"
  | .structuredComment => "STRUCTURED_COMMENT"
  | .package => "PACKAGE"
  | .endOfFile => "EOF"
  | .function => "FUNCTION"
  | .functionLiteral => "FUNCTION_LITERAL"
  | .functionName => "FUNCTION_NAME"
  | .constantDeclaration => "CONSTANT_DECLARATION"
  | .variableDeclaration => "VARIABLE_DECLARATION"
  | .variableName => "VARIABLE_NAME"
  | .imports => "IMPORT"
  | .importEntry => "IMPORT_ENTRY"
  | .goesTo => "GOTO"
  | .branchLabel => "BRANCH_LABEL"
  | .block => "BLOCK"
  | .arguments => "ARGUMENTS"
  | .argument => "ARGUMENT"
  | .call => "CALL"
  | .ifThen => "IF"
  | .ifKeyword => "IF_KEYWORD"
  | .elseKeyword => "ELSE_KEYWORD"
  | .elseBranch => "ELSE"
  | .condition => "CONDITION"
  | .classType => "CLASS"
  | .statement => "STATEMENT"
  | .emptyStatement => "EMPTY_STATEMENT"
  | .assignment => "ASSIGNMENT"
  | .compoundAssignment => "COMPOUND_ASSIGNMENT"
  | .assignmentTargetList => "ASSIGNMENT_TARGET_LIST"
  | .assignmentTarget => "ASSIGNMENT_TARGET"
  | .assignmentOperator => "ASSIGNMENT_OPERATOR"
  | .assignmentValueList => "ASSIGNMENT_VALUE_LIST"
  | .assignmentValue => "ASSIGNMENT_VALUE"
  | .identifier => "IDENTIFIER"
  | .type => "TYPE"
  | .keyword => "KEYWORD"
  | .memberSelect => "MEMBER_SELECT"
  | .literal => "LITERAL"
  | .floatLiteral => "FLOAT_LITERAL"
  | .intLiteral => "INT_LITERAL"
  | .decimalLiteral => "DECIMAL_LITERAL"
  | .hexLiteral => "HEX_LITERAL"
  | .octalLiteral => "OCTAL_LITERAL"
  | .stringLiteral => "STRING_LITERAL"
  | .charLiteral => "CHAR_LITERAL"
  | .booleanLiteral => "BOOLEAN_LITERAL"
  | .nullLiteral => "NULL_LITERAL"
  | .expression => "EXPRESSION"
  | .parameterList => "PARAMETER_LIST"
  | .parameter => "PARAMETER"
  | .resultList => "RESULT_LIST"
  | .result => "RESULT"
  | .returns => "RETURN"
  | .binaryExpression => "BINARY_EXPRESSION"
  | .leftOperand => "LEFT_OPERAND"
  | .rightOperand => "RIGHT_OPERAND"
  | .parenthesizedExpression => "PARENTHESIZED_EXPRESSION"
  | .leftParenthesis => "LEFT_PARENTHESIS"
  | .rightParenthesis => "RIGHT_PARENTHESIS"
  | .switch => "SWITCH"
  | .caseClause => "CASE"
  | .label => "LABEL"
  | .defaultCase => "DEFAULT_CASE"
  | .loop => "LOOP"
  | .forLoop => "FOR"
  | .forKeyword => "FOR_KEYWORD"
  | .forInit => "FOR_INIT"
  | .forUpdate => "FOR_UPDATE"
  | .body => "BODY"
  | .forEach => "FOREACH"
  | .breaks => "BREAK"
  | .continues => "CONTINUE"
  | .fallsThrough => "FALLTHROUGH"
  | .operator => "OPERATOR"
  | .add => "ADD"
  | .subtract => "SUBTRACT"
  | .multiply => "MULTIPLY"
  | .divide => "DIVIDE"
  | .remainder => "REMAINDER"
  | .bitwiseAnd => "BITWISE_AND"
  | .bitwiseAndNot => "BITWISE_AND_NOT"
  | .bitwiseOr => "BITWISE_OR"
  | .bitwiseXor => "BITWISE_XOR"
  | .leftShift => "LEFT_SHIFT"
  | .rightShift => "RIGHT_SHIFT"
  | .equal => "EQUAL"
  | .logicalAnd => "LOGICAL_AND"
  | .logicalOr => "LOGICAL_OR"
  | .notEqual => "NOT_EQUAL"
  | .lessThan => "LESS_THAN"
  | .lessOrEqual => "LESS_OR_EQUAL"
  | .greaterThan => "GREATER_THAN"
  | .greaterOrEqual => "GREATER_OR_EQUAL"
  | .thenBranch => "THEN"
  | .throws => "THROW"
  | .unsupported => "UNSUPPORTED"
  | .plusAssignment => "PLUS_ASSIGNMENT"
  | .minusAssignment => "MINUS_ASSIGNMENT"
  | .orAssignment => "OR_ASSIGNMENT"
  | .xorAssignment => "XOR_ASSIGNMENT"
  | .divideAssignment => "DIVIDE_ASSIGNMENT"
  | .multiplyAssignment => "MULTIPLY_ASSIGNMENT"
  | .remainderAssignment => "REMAINDER_ASSIGNMENT"
  | .rightShiftAssignment => "RIGHT_SHIFT_ASSIGNMENT"
  | .leftShiftAssignment => "LEFT_SHIFT_ASSIGNMENT"
  | .andAssignment => "AND_ASSIGNMENT"
  | .andNotAssignment => "AND_NOT_ASSIGNMENT"
  | .unaryExpression => "UNARY_EXPRESSION"
  | .operand => "OPERAND"
  | .unaryMinus => "UNARY_MINUS"
  | .unaryPlus => "UNARY_PLUS"
  | .logicalComplement => "LOGICAL_COMPLEMENT"
  | .bitwiseComplement => "BITWISE_COMPLEMENT"
  | .pointer => "POINTER"
  | .reference => "REFERENCE"
  | .channelDirection => "CHANNEL_DIRECTION"
  | .postfixIncrement => "POSTFIX_INCREMENT"
  | .postfixDecrement => "POSTFIX_DECREMENT"
  | .arrayAccessExpression => "ARRAY_ACCESS_EXPRESSION"
  | .arrayObjectExpression => "ARRAY_OBJECT_EXPRESSION"
  | .arrayKeyExpression => "ARRAY_KEY_EXPRESSION"
  | .declList => "DECL_LIST"

/-- The tag with a given name. -/
def ofName? (s : String) : Option Tag :=
  all.find? fun tag => tag.name = s

end Tag

end GoTree
