import GoTree.Text.Basic

/-!
# Symbols

The fixed spellings made of punctuation: brackets, separators and operators.

## Main definitions

* `Symbol`, `Symbol.spelling`, `Symbol.name`: the symbols, how they are written and what they are called
* `Symbol.chars`: the characters of a spelling
-/

namespace GoTree

/-- A piece of punctuation or an operator. -/
inductive Symbol where
  | leftParen | rightParen | leftBracket | rightBracket | leftBrace | rightBrace | comma | dot
  | ellipsis | semicolon | colon | plus | minus | star | slash | percent | amp | pipe | caret
  | shiftLeft | shiftRight | ampCaret | plusAssign | minusAssign | starAssign | slashAssign
  | percentAssign | ampAssign | pipeAssign | caretAssign | shiftLeftAssign | shiftRightAssign
  | ampCaretAssign | ampAmp | pipePipe | arrow | plusPlus | minusMinus | equal | less | greater
  | assign | bang | notEqual | lessEqual | greaterEqual | define
deriving DecidableEq, Repr

namespace Symbol

/-- Every symbol. -/
def all : List Symbol :=
  [.leftParen, .rightParen, .leftBracket, .rightBracket, .leftBrace, .rightBrace, .comma, .dot,
   .ellipsis, .semicolon, .colon, .plus, .minus, .star, .slash, .percent, .amp, .pipe, .caret,
   .shiftLeft, .shiftRight, .ampCaret, .plusAssign, .minusAssign, .starAssign, .slashAssign,
   .percentAssign, .ampAssign, .pipeAssign, .caretAssign, .shiftLeftAssign, .shiftRightAssign,
   .ampCaretAssign, .ampAmp, .pipePipe, .arrow, .plusPlus, .minusMinus, .equal, .less, .greater,
   .assign, .bang, .notEqual, .lessEqual, .greaterEqual, .define]

/-- How a symbol is written. -/
def spelling : Symbol → String
  | .leftParen => "("
  | .rightParen => ")"
  | .leftBracket => "["
  | .rightBracket => "]"
  | .leftBrace => "\x7b"
  | .rightBrace => "\x7d"
  | .comma => ","
  | .dot => "."
  | .ellipsis => "..."
  | .semicolon => ";"
  | .colon => ":"
  | .plus => "+"
  | .minus => "-"
  | .star => "*"
  | .slash => "/"
  | .percent => "%"
  | .amp => "&"
  | .pipe => "|"
  | .caret => "^"
  | .shiftLeft => "<<"
  | .shiftRight => ">>"
  | .ampCaret => "&^"
  | .plusAssign => "+="
  | .minusAssign => "-="
  | .starAssign => "*="
  | .slashAssign => "/="
  | .percentAssign => "%="
  | .ampAssign => "&="
  | .pipeAssign => "|="
  | .caretAssign => "^="
  | .shiftLeftAssign => "<<="
  | .shiftRightAssign => ">>="
  | .ampCaretAssign => "&^="
  | .ampAmp => "&&"
  | .pipePipe => "||"
  | .arrow => "<-"
  | .plusPlus => "++"
  | .minusMinus => "--"
  | .equal => "=="
  | .less => "<"
  | .greater => ">"
  | .assign => "="
  | .bang => "!"
  | .notEqual => "!="
  | .lessEqual => "<="
  | .greaterEqual => ">="
  | .define => ":="

/-- What a symbol is called in listings. -/
def name : Symbol → String
  | .leftParen => "LEFT_PAREN"
  | .rightParen => "RIGHT_PAREN"
  | .leftBracket => "LEFT_BRACKET"
  | .rightBracket => "RIGHT_BRACKET"
  | .leftBrace => "LEFT_BRACE"
  | .rightBrace => "RIGHT_BRACE"
  | .comma => "COMMA"
  | .dot => "DOT"
  | .ellipsis => "ELLIPSIS"
  | .semicolon => "SEMICOLON"
  | .colon => "COLON"
  | .plus => "PLUS"
  | .minus => "MINUS"
  | .star => "STAR"
  | .slash => "SLASH"
  | .percent => "PERCENT"
  | .amp => "AMP"
  | .pipe => "PIPE"
  | .caret => "CARET"
  | .shiftLeft => "SHL"
  | .shiftRight => "SHR"
  | .ampCaret => "AMP_CARET"
  | .plusAssign => "PLUS_EQ"
  | .minusAssign => "MINUS_EQ"
  | .starAssign => "STAR_EQ"
  | .slashAssign => "SLASH_EQ"
  | .percentAssign => "PERCENT_EQ"
  | .ampAssign => "AMP_EQ"
  | .pipeAssign => "PIPE_EQ"
  | .caretAssign => "CARET_EQ"
  | .shiftLeftAssign => "SHL_EQ"
  | .shiftRightAssign => "SHR_EQ"
  | .ampCaretAssign => "AMP_CARET_EQ"
  | .ampAmp => "AMP_AMP"
  | .pipePipe => "PIPE_PIPE"
  | .arrow => "ARROW"
  | .plusPlus => "PLUS_PLUS"
  | .minusMinus => "MINUS_MINUS"
  | .equal => "EQ_EQ"
  | .less => "LT"
  | .greater => "GT"
  | .assign => "EQ"
  | .bang => "BANG"
  | .notEqual => "NEQ"
  | .lessEqual => "LTEQ"
  | .greaterEqual => "GTEQ"
  | .define => "COLON_EQ"

/-- The characters of the spelling. -/
def chars (s : Symbol) : Text :=
  s.spelling.toList

@[simp]
theorem mem_all (s : Symbol) : s ∈ all := by
  cases s <;> decide

end Symbol

end GoTree
