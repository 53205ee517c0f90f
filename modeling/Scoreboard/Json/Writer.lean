import Scoreboard.Json

/-!
# Writing JSON

A value is written over several lines, two columns further in at each level, or on one line.
Strings are written in ASCII alone: a character beyond it becomes the units of its UTF-16
encoding. The values beyond all numbers are written as words.
-/

namespace Scoreboard.Json

/-- The units of a code in UTF-16; a lone half is one unit. -/
def units (code : Nat) : List Nat :=
  if code < 0x10000 then [code]
  else
    let n := code - 0x10000
    [0xD800 + n / 0x400, 0xDC00 + n % 0x400]

/-- A code written by its units. -/
def escapeCode (code : Nat) : List Char :=
  (units code).flatMap fun unit => '\\' :: 'u' :: Text.hex 4 unit

/-- One character inside a written string. -/
def escape (c : Char) : List Char :=
  if c == '"' then ['\\', '"']
  else if c == '\\' then ['\\', '\\']
  else if c == '\n' then ['\\', 'n']
  else if c == '\r' then ['\\', 'r']
  else if c == '\t' then ['\\', 't']
  else if c == '\x08' then ['\\', 'b']
  else if c == '\x0c' then ['\\', 'f']
  else if 32 ≤ c.toNat && c.toNat < 127 then [c]
  else escapeCode c.toNat

/-- One code point inside a written string. -/
def escapePoint : CodePoint → List Char
  | .char c => escape c
  | .half offset => escapeCode (CodePoint.half offset).code

/-- A string with its quotes. -/
def writeString (text : Text) : String :=
  String.ofList ('"' :: text.points.flatMap escapePoint ++ ['"'])

/-- A new line at a level. -/
def newLine (level : Nat) : String :=
  "\n" ++ String.ofList (List.replicate (2 * level) ' ')

/-- The parts of a list or object between its brackets, each on a line of its own. -/
def enclose (opening closing : String) (level : Nat) (parts : List String) : String :=
  if parts.isEmpty then opening ++ closing
  else
    opening ++ newLine (level + 1) ++ ("," ++ newLine (level + 1)).intercalate parts
      ++ newLine level ++ closing

mutual

/-- A value at a level. -/
def writeAt (level : Nat) : Json → String
  | null => "null"
  | bool true => "true"
  | bool false => "false"
  | integer value => toString value
  | floating value => value.text "Infinity" "NaN"
  | string value => writeString value
  | array items => enclose "[" "]" level (writeItems (level + 1) items)
  | object members => enclose "\x7b" "\x7d" level (writeMembers (level + 1) members)

/-- Items at a level. -/
def writeItems (level : Nat) : List Json → List String
  | [] => []
  | item :: rest => item.writeAt level :: writeItems level rest

/-- Members at a level. -/
def writeMembers (level : Nat) : List (Text × Json) → List String
  | [] => []
  | (key, value) :: rest =>
    (writeString key ++ ": " ++ value.writeAt level) :: writeMembers level rest

end

mutual

/-- A value on one line, without blanks. -/
def writeLine : Json → String
  | null => "null"
  | bool true => "true"
  | bool false => "false"
  | integer value => toString value
  | floating value => value.text "Infinity" "NaN"
  | string value => writeString value
  | array items => "[" ++ ",".intercalate (lineItems items) ++ "]"
  | object members => "\x7b" ++ ",".intercalate (lineMembers members) ++ "\x7d"

/-- Items on one line each. -/
def lineItems : List Json → List String
  | [] => []
  | item :: rest => item.writeLine :: lineItems rest

/-- Members on one line each. -/
def lineMembers : List (Text × Json) → List String
  | [] => []
  | (key, value) :: rest => (writeString key ++ ":" ++ value.writeLine) :: lineMembers rest

end

/-- A value as the contents of a file, with a final newline. -/
def write (value : Json) : String := value.writeAt 0 ++ "\n"

end Scoreboard.Json
