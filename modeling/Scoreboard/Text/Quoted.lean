import Scoreboard.Text
import Scoreboard.Text.Printable

/-!
# Quoted text

How a text is shown between quotes: in single quotes, or in double quotes when it holds a
single quote and no double one. The quote in use and the backslash are escaped, line breaks
and tabs have a letter, and everything else that is not printable is written by its code in
hexadecimal. Lone halves are not printable, so the shown text is a string.
-/

namespace Scoreboard.Text

/-- The lower-case hexadecimal digits of `n`, filled with zeros to `width`. -/
def hex (width n : Nat) : List Char :=
  let digits := Nat.toDigits 16 n
  List.replicate (width - digits.length) '0' ++ digits

/-- The quote that encloses a shown text. -/
def enclosingQuote (text : Text) : Char :=
  if text.points.contains (.char '\x27') && !text.points.contains (.char '"') then '"'
  else '\x27'

/-- A code in hexadecimal, with the letter for its width. -/
def escapeCode (code : Nat) : List Char :=
  if code < 0x100 then '\\' :: 'x' :: hex 2 code
  else if code < 0x10000 then '\\' :: 'u' :: hex 4 code
  else '\\' :: 'U' :: hex 8 code

/-- One character between the quotes. -/
def escapeShown (quote c : Char) : List Char :=
  if c == quote || c == '\\' then ['\\', c]
  else if c == '\n' then ['\\', 'n']
  else if c == '\r' then ['\\', 'r']
  else if c == '\t' then ['\\', 't']
  else if isPrintable c then [c]
  else escapeCode c.toNat

/-- One code point between the quotes. -/
def escapePoint (quote : Char) : CodePoint → List Char
  | .char c => escapeShown quote c
  | .half offset => escapeCode (CodePoint.half offset).code

/-- The text between its quotes. -/
def quoted (text : Text) : String :=
  let quote := enclosingQuote text
  String.ofList (quote :: text.points.flatMap (escapePoint quote) ++ [quote])

end Scoreboard.Text
