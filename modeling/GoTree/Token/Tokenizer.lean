import GoTree.Token.Scanner
import GoTree.Unicode.Alphabetic
import GoTree.Unicode.Numeric

/-!
# Tokenizing

The kind of a token is found while its characters are read.  The first character chooses an arm;
within an arm the longer spellings are tried before the shorter ones, and a character is read as soon
as it can belong to nothing else.  Literals that do not close and characters that start nothing come
out as `unknown`.  Behind the last token a scanner hands out the end of the text, as often as it is
asked.

## Main definitions

* `Scan.number`, `Scan.quoted`, `Scan.rawString`, `Scan.blockComment`, `Scan.word`: what takes more
  than a few characters
* `Scan.kindFrom`, `Scan.kind`: the kind of the token at the front of what is left
* `Scanner.next?`, `Scanner.pull?`: the next token, and the tokens of several calls
* `Token.ofText`: all tokens of a text
-/

namespace GoTree

namespace Token

/-! ### Classes of characters -/

/-- The byte order mark, a blank at the very start of a text and a stray character elsewhere. -/
def byteOrderMark : Char := '\ufeff'

/-- Blanks within a line. -/
def isSpace (c : Char) : Bool :=
  c == ' ' || c == '\t' || c == '\r'

/-- Characters that may start a name. -/
def isNameStart (c : Char) : Bool :=
  c == '_' || Unicode.isAlphabetic c

/-- Characters that may continue a name. -/
def isNamePart (c : Char) : Bool :=
  c == '_' || Unicode.isAlphabetic c || Unicode.isNumeric c

/-- Hexadecimal digits beyond the decimal ones. -/
def isHexLetter (c : Char) : Bool :=
  ('a' ≤ c && c ≤ 'f') || ('A' ≤ c && c ≤ 'F')

/-- Digits of a number and the marks that group them. -/
def isDigitOrMark (hex : Bool) (c : Char) : Bool :=
  c == '_' || c.isDigit || (hex && isHexLetter c)

/-- The characters that open the exponent of a number. -/
def isPower (hex : Bool) (c : Char) : Bool :=
  if hex then c == 'p' || c == 'P' else c == 'e' || c == 'E'

end Token

namespace Scan

open Token

/-! ### Comments and literals -/

/-- Reads the closing of a block comment, or another character of it.  The comment is unknown if the
text ends before it is closed. -/
def commentTurn : Scan (Option Kind) := do
  if ← isAtEnd then pure (some .unknown)
  else if (← advance) == '*' then
    if ← eat '/' then pure (some .blockComment) else pure none
  else pure none

/-- A block comment behind its opening. -/
def blockComment : Scan Kind :=
  loop commentTurn

/-- Reads the closing quote of a literal, or another character of it.  A backslash takes the next
character with it.  The literal is unknown if its line or the text ends before it is closed. -/
def quotedTurn (quote : Char) (literal : Literal) : Scan (Option Kind) := do
  let c ← peek
  if c == quote then
    let _ ← advance
    pure (some (.literal literal))
  else if c == '\\' then
    let _ ← advance
    -- a line feed ends the literal even behind a backslash
    if (← peek) != '\n' then
      let _ ← advance
    pure none
  else if c == '\n' then
    pure (some .unknown)
  else if c == endMark && (← isAtEnd) then
    -- the same character may also stand in the text, where it is one like any other
    pure (some .unknown)
  else
    let _ ← advance
    pure none

/-- **A quoted literal** behind its opening quote. -/
def quoted (quote : Char) (literal : Literal) : Scan Kind :=
  loop (quotedTurn quote literal)

/-- A raw string reaches to the next back quote, over any characters. -/
def rawString : Scan Kind := do
  advanceWhile (· != '\x60')
  if ← eat '\x60' then pure (.literal .string) else pure .unknown

/-! ### Numbers -/

/-- Digits and the marks that group them. -/
def digits (hex : Bool) : Scan Unit :=
  advanceWhile (isDigitOrMark hex)

/-- The base mark of a number that starts with `first`; whether the number is hexadecimal. -/
def base (first : Char) : Scan Bool := do
  if first == '0' then
    let c ← peek
    if c == 'x' || c == 'X' then
      let _ ← advance
      pure true
    else if c == 'b' || c == 'B' || c == 'o' || c == 'O' then
      let _ ← advance
      pure false
    else
      pure false
  else
    pure false

/-- A number up to its exponent: whether it is hexadecimal, and its class so far. -/
def mantissa (first : Char) : Scan (Bool × Literal) := do
  if first == '.' then
    digits false
    pure (false, .float)
  else
    let hex ← base first
    digits hex
    if ← eat '.' then
      digits hex
      pure (hex, .float)
    else
      pure (hex, .int)

/-- The sign of an exponent, if it has one. -/
def sign : Scan Unit := do
  if !(← eat '+') then
    let _ ← eat '-'

/-- An exponent, if there is one: its mark, an optional sign, and digits. -/
def exponent (hex : Bool) : Scan Bool := do
  if isPower hex (← peek) then
    let _ ← advance
    sign
    digits false
    pure true
  else
    pure false

/-- **A number** that starts with the character `first`, a digit or a point. -/
def number (first : Char) : Scan Kind := do
  let (hex, literal) ← mantissa first
  -- what comes last says most about the class
  let literal := if ← exponent hex then .float else literal
  let literal := if ← eat 'i' then .imaginary else literal
  pure (.literal literal)

/-! ### Names and symbols -/

/-- A name behind its first character, or the keyword that is spelled so. -/
def word : Scan Kind := do
  advanceWhile isNamePart
  match Keyword.ofSpelling? (String.ofList (← tokenText)) with
  | some keyword => pure (.keyword keyword)
  | none => pure .name

/-- A symbol, which an equals sign makes another one. -/
def withEqual (plain assigned : Symbol) : Scan Kind := do
  if ← eat '=' then pure (.symbol assigned) else pure (.symbol plain)

/-! ### Kinds -/

/-- **The kind of a token that starts with `c`**, which is read already. -/
def kindFrom (c : Char) : Scan Kind :=
  match c with
  | '\n' => pure .newline
  | ' ' | '\t' | '\r' => do
    advanceWhile isSpace
    pure .whitespace
  | '/' => do
    -- a second slash or a star opens a comment, whatever stands behind it
    if ← eat '/' then
      advanceWhile (· != '\n')
      pure .lineComment
    else if ← eat '*' then blockComment
    else withEqual .slash .slashAssign
  | '(' => pure (.symbol .leftParen)
  | ')' => pure (.symbol .rightParen)
  | '[' => pure (.symbol .leftBracket)
  | ']' => pure (.symbol .rightBracket)
  | '\x7b' => pure (.symbol .leftBrace)
  | '\x7d' => pure (.symbol .rightBrace)
  | ',' => pure (.symbol .comma)
  | ';' => pure (.symbol .semicolon)
  | '.' => do
    -- two points are two symbols, so the second of them is looked at before any is read
    if (← peek).isDigit then number '.'
    else if (← peek) == '.' && (← peekSecond) == '.' then
      let _ ← advance
      let _ ← advance
      pure (.symbol .ellipsis)
    else pure (.symbol .dot)
  | ':' => withEqual .colon .define
  | '+' => do
    if ← eat '+' then pure (.symbol .plusPlus) else withEqual .plus .plusAssign
  | '-' => do
    if ← eat '-' then pure (.symbol .minusMinus) else withEqual .minus .minusAssign
  | '*' => withEqual .star .starAssign
  | '%' => withEqual .percent .percentAssign
  | '&' => do
    if ← eat '&' then pure (.symbol .ampAmp)
    else if ← eat '^' then withEqual .ampCaret .ampCaretAssign
    else withEqual .amp .ampAssign
  | '|' => do
    if ← eat '|' then pure (.symbol .pipePipe) else withEqual .pipe .pipeAssign
  | '^' => withEqual .caret .caretAssign
  | '<' => do
    if ← eat '<' then withEqual .shiftLeft .shiftLeftAssign
    else if ← eat '-' then pure (.symbol .arrow)
    else withEqual .less .lessEqual
  | '>' => do
    if ← eat '>' then withEqual .shiftRight .shiftRightAssign
    else withEqual .greater .greaterEqual
  | '=' => withEqual .assign .equal
  | '!' => withEqual .bang .notEqual
  | '\x22' => quoted '\x22' .string
  | '\x60' => rawString
  | '\x27' => quoted '\x27' .char
  | c =>
    if c.isDigit then number c
    else if isNameStart c then word
    else pure .unknown

/-- Whether `c`, which was read last, is a byte order mark at the start of the text. -/
def isLeadingMark (c : Char) : Scan Bool := do
  if c == byteOrderMark then pure ((← offset) == byteOrderMark.utf8Size) else pure false

/-- **The kind of the token at the front of what is left.** -/
def kind : Scan Kind := do
  if ← isAtEnd then pure .endOfFile
  else
    let c ← advance
    if ← isLeadingMark c then pure .whitespace else kindFrom c

end Scan

namespace Scanner

/-! ### Tokens -/

/-- **The next token**, and the scanner that starts the one after it. -/
def next? (s : Scanner) : Option (Token × Scanner) :=
  (Scan.kind.run s).bind fun (kind, s) =>
    s.range?.bind fun (start, stop) =>
      (s.text.slice? start stop).map fun text => (⟨kind, start, text⟩, s.begin)

/-- The tokens of `n` calls. -/
def pull? : (n : Nat) → Scanner → Option (List Token × Scanner)
  | 0, s => some ([], s)
  | n + 1, s =>
    s.next?.bind fun (token, s) =>
      (pull? n s).map fun (tokens, s) => (token :: tokens, s)

/-- The tokens before the end of the text, which must come within `n` calls. -/
def tokens? : (n : Nat) → Scanner → Option (List Token)
  | 0, _ => none
  | n + 1, s =>
    s.next?.bind fun (token, s) =>
      if token.kind = .endOfFile then some [] else (tokens? n s).map (token :: ·)

end Scanner

/-- **All tokens of a text**, blanks and comments included.  Every call reads a character until
nothing is left, so there are no more tokens than characters.  Whoever looks at the tokens of a text
that is not known gains nothing from the turns in which they are read. -/
@[irreducible]
def Token.ofText (t : Text) : List Token :=
  ((Scanner.ofText t).tokens? (t.length + 1)).getD []

end GoTree
