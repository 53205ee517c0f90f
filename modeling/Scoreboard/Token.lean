import Scoreboard.Arithmetic
import Scoreboard.Source
import Scoreboard.Text.Quoted

/-!
# Tokens

The words of a script. The kind of a token carries what the token stands for: the value of
an integer, the text of a string, the operator. A character that starts no token becomes an
illegal token, which is reported when the reader of the script reaches it.
-/

namespace Scoreboard

/-- The reserved words. -/
inductive Keyword where
  | declare
  | function
  | raw
  deriving DecidableEq, Repr, Inhabited

/-- What a token is. -/
inductive TokenKind where
  | integer (value : Int)
  | string (value : String)
  | identifier
  | keyword (word : Keyword)
  | operator (op : Operator)
  | assign
  | leftParen
  | rightParen
  | leftBrace
  | rightBrace
  | comma
  | colon
  | newline
  | endOfText
  | illegal
  deriving DecidableEq, Repr, Inhabited

namespace Keyword

/-- The spelling of a reserved word. -/
def word : Keyword → String
  | declare => "let"
  | function => "function"
  | raw => "raw"

/-- The reserved word of a spelling. -/
def ofWord? (word : String) : Option Keyword :=
  [declare, function, raw].find? (·.word == word)

end Keyword

namespace TokenKind

/-- The kind of a word: a reserved word or a name. -/
def ofWord (word : String) : TokenKind :=
  match Keyword.ofWord? word with
  | some reserved => .keyword reserved
  | none => .identifier

/-- The kind of a sign of one character. -/
def ofSign? (c : Char) : Option TokenKind :=
  match c with
  | '+' => some (.operator .add)
  | '-' => some (.operator .subtract)
  | '*' => some (.operator .multiply)
  | '/' => some (.operator .divide)
  | '=' => some .assign
  | '(' => some .leftParen
  | ')' => some .rightParen
  | '\x7b' => some .leftBrace
  | '\x7d' => some .rightBrace
  | ',' => some .comma
  | ':' => some .colon
  | _ => none

/-- The name of a kind, for inspection. -/
def name : TokenKind → String
  | integer _ => "INTEGER"
  | string _ => "STRING"
  | identifier => "IDENTIFIER"
  | keyword .declare => "LET"
  | keyword .function => "FUNCTION"
  | keyword .raw => "RAW"
  | operator .add => "PLUS"
  | operator .subtract => "MINUS"
  | operator .multiply => "STAR"
  | operator .divide => "SLASH"
  | assign => "ASSIGN"
  | leftParen => "LPAREN"
  | rightParen => "RPAREN"
  | leftBrace => "LBRACE"
  | rightBrace => "RBRACE"
  | comma => "COMMA"
  | colon => "COLON"
  | newline => "NEWLINE"
  | endOfText => "EOF"
  | illegal => "ERROR"

/-- Whether a kind is a reserved word. -/
def isKeyword : TokenKind → Bool
  | keyword _ => true
  | _ => false

/-- Whether a kind is a literal. -/
def isLiteral : TokenKind → Bool
  | integer _ => true
  | string _ => true
  | _ => false

/-- Whether a kind is an arithmetic operator. -/
def isOperator : TokenKind → Bool
  | operator _ => true
  | _ => false

/-- The precedence of an operator, 0 for every other kind. -/
def precedence : TokenKind → Nat
  | operator op => op.precedence
  | _ => 0

end TokenKind

/-- A word of a script with the range it was read from. -/
structure Token where
  kind : TokenKind
  lexeme : String
  span : Span
  deriving DecidableEq, Repr, Inhabited

namespace Token

/-- The value of a literal, as it is shown. -/
def shownValue? (token : Token) : Option String :=
  match token.kind with
  | .integer value => some (toString value)
  | .string value => some (Text.quoted value)
  | _ => none

/-- A token with its value and line, for inspection. -/
def describe (token : Token) : String :=
  let value := match token.shownValue? with
    | some value => s!", {value}"
    | none => ""
  s!"Token({token.kind.name}, {Text.quoted token.lexeme}{value}, line={token.span.start.line})"

end Token

end Scoreboard
