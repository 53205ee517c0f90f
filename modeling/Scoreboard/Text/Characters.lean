/-!
# Characters and lists of them

Blanks, decimal digits, the integers they spell, and lines. A property of characters that a
standard lists as a table is kept as a list of closed ranges of code points. The tables of
this folder leave the ASCII characters out: those have a rule of their own, which needs no
table.
-/

namespace Scoreboard.Text

/-- A closed range of code points, first and last. -/
abbrev Range := Nat × Nat

/-- Whether one of the ranges holds the character. -/
def inRanges (table : List Range) (c : Char) : Bool :=
  table.any fun range => range.1 ≤ c.toNat && c.toNat ≤ range.2

/-! ## Blanks

The white space that is cut off at both ends of an answer typed at a prompt.
-/

/-- The blank characters beyond ASCII. -/
def blankTable : List Range :=
  [(0x85, 0x85), (0xA0, 0xA0), (0x1680, 0x1680), (0x2000, 0x200A), (0x2028, 0x2029),
   (0x202F, 0x202F), (0x205F, 0x205F), (0x3000, 0x3000)]

/-- White space of any script; in ASCII the tab to the carriage return, the four
information separators and the space. -/
def isBlank (c : Char) : Bool :=
  if c.toNat < 128 then
    (9 ≤ c.toNat && c.toNat ≤ 13) || (28 ≤ c.toNat && c.toNat ≤ 32)
  else
    inRanges blankTable c

/-- The text without the blanks at both ends. -/
def trim (text : List Char) : List Char :=
  ((text.dropWhile isBlank).reverse.dropWhile isBlank).reverse

/-! ## Decimal digits

Every script that writes decimal numbers has its ten digits at ten successive code points,
so a table of the zeros gives the value of each digit.
-/

/-- The zeros beyond ASCII. -/
def zeroTable : List Nat :=
  [0x660, 0x6F0, 0x7C0, 0x966, 0x9E6, 0xA66, 0xAE6, 0xB66, 0xBE6, 0xC66, 0xCE6, 0xD66, 0xDE6,
   0xE50, 0xED0, 0xF20, 0x1040, 0x1090, 0x17E0, 0x1810, 0x1946, 0x19D0, 0x1A80, 0x1A90, 0x1B50,
   0x1BB0, 0x1C40, 0x1C50, 0xA620, 0xA8D0, 0xA900, 0xA9D0, 0xA9F0, 0xAA50, 0xABF0, 0xFF10,
   0x104A0, 0x10D30, 0x11066, 0x110F0, 0x11136, 0x111D0, 0x112F0, 0x11450, 0x114D0, 0x11650,
   0x116C0, 0x11730, 0x118E0, 0x11950, 0x11C50, 0x11D50, 0x11DA0, 0x16A60, 0x16AC0, 0x16B50,
   0x1D7CE, 0x1D7D8, 0x1D7E2, 0x1D7EC, 0x1D7F6, 0x1E140, 0x1E2F0, 0x1E950, 0x1FBF0]

/-- The value of a decimal digit of any script. -/
def digitValue? (c : Char) : Option Nat :=
  if c.toNat < 128 then
    if c.isDigit then some (c.toNat - 48) else none
  else
    (zeroTable.find? fun first => first ≤ c.toNat && c.toNat < first + 10).map (c.toNat - ·)

/-! ## Numerals

Reading an integer from text: blanks, a sign, decimal digits of any script, blanks. Texts
of more than `digitLimit` digits are refused, whatever their value.
-/

/-- The largest number of digits that is read. -/
def digitLimit : Nat := 4300

/-- The blanks that may surround a numeral: as for `isBlank`, without the separators of
ASCII below the space. -/
def isNumeralBlank (c : Char) : Bool :=
  isBlank c && !(28 ≤ c.toNat && c.toNat < 32)

/-- The number written by a list of digit values. -/
def ofDigits (digits : List Nat) : Nat :=
  digits.foldl (fun n d => 10 * n + d) 0

/-- The number written by a text of digits, refused when the text is empty, holds another
character or is too long. -/
def natural? (text : List Char) : Option Nat :=
  if text.isEmpty || digitLimit < text.length then none
  else (text.mapM digitValue?).map ofDigits

/-- The integer written by a text with blanks and a sign. -/
def integer? (text : List Char) : Option Int :=
  let inner := (((text.dropWhile isNumeralBlank).reverse).dropWhile isNumeralBlank).reverse
  match inner with
  | '+' :: digits => (natural? digits).map Int.ofNat
  | '-' :: digits => (natural? digits).map fun n => -Int.ofNat n
  | digits => (natural? digits).map Int.ofNat

/-! ## Lines

A list is cut at a separator; one with `n` separators has `n + 1` pieces, any of them
possibly empty. Lines are cut at newlines. Files are read with every line ending turned into
a newline.
-/

/-- The pieces of a list between separators. -/
def split {α : Type} [DecidableEq α] (separator : α) : List α → List (List α)
  | [] => [[]]
  | c :: rest =>
    if c = separator then [] :: split separator rest
    else match split separator rest with
      | piece :: more => (c :: piece) :: more
      | [] => [[c]]

/-- The lines of a text, without their newlines. -/
def lines (text : List Char) : List (List Char) := split '\n' text

/-- The text with each carriage return, and each pair of carriage return and newline,
turned into one newline. -/
def normalizeNewlines : List Char → List Char
  | [] => []
  | '\r' :: '\n' :: rest => '\n' :: normalizeNewlines rest
  | '\r' :: rest => '\n' :: normalizeNewlines rest
  | c :: rest => c :: normalizeNewlines rest

end Scoreboard.Text
