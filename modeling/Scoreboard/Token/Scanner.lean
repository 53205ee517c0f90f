import Scoreboard.Text.Characters
import Scoreboard.Text.Letter
import Scoreboard.Token

/-!
# Reading tokens

A scanner walks over a source with two bookmarks: `start`, where the token being read
begins, and `current`, the next character. Each step takes at least one character. Blanks and
comments leave no token; an unterminated string leaves an illegal token for its opening
quote, and the walk goes on right behind that quote.

A step can fail, and then the scanner keeps what the step had done so far. It fails at the
end of the text, and on an integer that is no numeral or has too many digits.
-/

namespace Scoreboard

/-- Why a step of a scanner fails. -/
inductive ScanError where
  | endOfText
  | numeral
  deriving DecidableEq, Repr, Inhabited

/-- A place in a text with its position and the text from there on. The offset may lie
beyond the end of the text; the position does not. -/
structure Bookmark where
  offset : Nat
  position : Position
  ahead : List Char
  deriving DecidableEq, Repr, Inhabited

namespace Bookmark

/-- The start of a text. -/
def ofText (text : List Char) : Bookmark := ⟨0, .origin, text⟩

/-- Some characters further on. -/
def move (n : Nat) (b : Bookmark) : Bookmark :=
  ⟨b.offset + n, b.position.advance b.ahead n, b.ahead.drop n⟩

end Bookmark

/-- A walk over a source, with the tokens read so far, the latest first. -/
structure Scanner where
  source : Source
  emitted : List Token := []
  start : Bookmark := .ofText source.text
  current : Bookmark := .ofText source.text
  deriving DecidableEq, Repr, Inhabited

/-- A step of a scanner. -/
abbrev Scan := EStateM ScanError Scanner

namespace Scanner

/-! ## Lengths of words

What the text ahead holds, as a number of characters. -/

/-- The value of a string up to its closing quote and the number of characters up to and
with that quote. A backslash before a quote or a backslash is left out. -/
def stringBody : List Char → Option (List Char × Nat)
  | [] => none
  | '"' :: _ => some ([], 1)
  | '\\' :: '"' :: rest => (stringBody rest).map fun (value, n) => ('"' :: value, n + 2)
  | '\\' :: '\\' :: rest => (stringBody rest).map fun (value, n) => ('\\' :: value, n + 2)
  | c :: rest => (stringBody rest).map fun (value, n) => (c :: value, n + 1)

/-- The number of characters that go on with an integer: digits, and underscores that a
digit follows. -/
def integerLength : List Char → Nat
  | [] => 0
  | [c] => if c.isDigit then 1 else 0
  | c :: d :: rest =>
    if c.isDigit || (c == '_' && d.isDigit) then integerLength (d :: rest) + 1 else 0

/-- The number of characters that go on with a name. -/
def nameLength (text : List Char) : Nat :=
  (text.takeWhile Text.continuesName).length

/-- The number of characters up to the end of the line. -/
def lineLength (text : List Char) : Nat :=
  (text.takeWhile (· != '\n')).length

/-- The blanks between tokens. -/
def isGap (c : Char) : Bool :=
  c == ' ' || c == '\t' || c == '\r' || c == '\x0c'

/-! ## State -/

/-- A scanner at the start of a source. -/
def ofSource (source : Source) : Scanner := { source }

/-- The tokens read so far. -/
def tokens (s : Scanner) : List Token := s.emitted.reverse

/-- The characters not read yet. -/
def rest (s : Scanner) : List Char := s.current.ahead

/-- Whether the whole text is read. -/
def atEnd (s : Scanner) : Bool := s.rest.isEmpty

/-- The next character. -/
def peek? (s : Scanner) : Option Char := s.rest.head?

/-- The character after the next one. -/
def peekSecond? (s : Scanner) : Option Char := s.rest[1]?

/-- The characters of the token being read. -/
def pending (s : Scanner) : List Char :=
  s.start.ahead.take (s.current.offset - s.start.offset)

/-- Start a token at the next character. -/
def mark (s : Scanner) : Scanner := { s with start := s.current }

/-- Take some characters into the token being read. -/
def take (n : Nat) (s : Scanner) : Scanner := { s with current := s.current.move n }

/-- Go back behind the first character of the token being read. -/
def rewind (s : Scanner) : Scanner := { s with current := s.start.move 1 }

/-- The span of the token being read. -/
def span (s : Scanner) : Span := ⟨s.start.position, s.current.position, s.source⟩

/-- Finish the token being read. -/
def emit (kind : TokenKind) (s : Scanner) : Scanner :=
  { s with emitted := ⟨kind, String.ofList s.pending, s.span⟩ :: s.emitted }

/-! ## Steps -/

/-- Take the next character. -/
def advance : Scan Char := do
  match (← get).rest with
  | c :: _ => modify (take 1); return c
  | [] => throw .endOfText

/-- The rest of a string after its opening quote. -/
def string : Scan Unit := do
  match stringBody (← get).rest with
  | some (value, n) => modify fun s => (s.take n).emit (.string (String.ofList value))
  | none => modify fun s => s.rewind.emit .illegal

/-- The rest of an integer. -/
def integer : Scan Unit := do
  modify fun s => s.take (integerLength s.rest)
  match Text.integer? ((← get).pending.filter (· != '_')) with
  | some value => modify (emit (.integer value))
  | none => throw .numeral

/-- The rest of a name or reserved word. -/
def name : Scan Unit :=
  modify fun s =>
    let s := s.take (nameLength s.rest)
    s.emit (.ofWord (String.ofList s.pending))

/-- Read one token, one blank or one comment. -/
def scanToken : Scan Unit := do
  let c ← advance
  if isGap c then return
  if c == '\n' then modify (emit .newline)
  else if c == '/' && (← get).peek? == some '/' then modify fun s => s.take (lineLength s.rest)
  else match TokenKind.ofSign? c with
    | some kind => modify (emit kind)
    | none =>
      if c == '"' then string
      else if c.isDigit then integer
      else if Text.startsName c then name
      else modify (emit .illegal)

/-- Read at most `n` tokens, blanks and comments. -/
def scanUpTo : Nat → Scan Unit
  | 0 => return
  | n + 1 => do
    if (← get).atEnd then return
    modify mark
    scanToken
    scanUpTo n

/-- Read the rest of the text and close the list with the end of the text. Each step takes
a character, so there are at most as many steps as characters. -/
def scanAll : Scan (List Token) := do
  scanUpTo (← get).rest.length
  modify fun s => s.mark.emit .endOfText
  return (← get).tokens

end Scanner

/-- The tokens of a source, closed by the end of the text. -/
def tokenize (source : Source) : Except ScanError (List Token) :=
  match Scanner.scanAll (Scanner.ofSource source) with
  | .ok tokens _ => .ok tokens
  | .error e _ => .error e

end Scoreboard
