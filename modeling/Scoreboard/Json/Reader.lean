import Scoreboard.Json
import Scoreboard.Text.Characters

/-!
# Reading JSON

The strict grammar: no comments, no trailing commas, no leading zeros, no control characters
in strings, nothing behind the value. Besides the standard's values, `NaN` and the two
infinities are taken as numbers. Of several members with one key the last counts. An integer
of too many digits is refused apart from the grammar.
-/

namespace Scoreboard.Json

/-- Why a text is not read. -/
inductive ReadError where
  | malformed
  | tooLong (digits : Nat)
  deriving DecidableEq, Repr, Inhabited

/-- The text behind leading blanks. -/
def skipBlanks (text : List Char) : List Char :=
  text.dropWhile fun c => c == ' ' || c == '\t' || c == '\n' || c == '\r'

/-- The text behind a word. -/
def after? : List Char → List Char → Option (List Char)
  | [], text => some text
  | _ :: _, [] => none
  | c :: word, d :: text => if c = d then after? word text else none

/-! ## Strings -/

/-- The value of a hexadecimal digit. -/
def hexValue? (c : Char) : Option Nat :=
  if c.isDigit then some (c.toNat - 48)
  else if 'a' ≤ c && c ≤ 'f' then some (c.toNat - 87)
  else if 'A' ≤ c && c ≤ 'F' then some (c.toNat - 55)
  else none

/-- The value of four hexadecimal digits. -/
def hexUnit? (a b c d : Char) : Option Nat := do
  return ((← hexValue? a) * 16 + (← hexValue? b)) * 256
    + (← hexValue? c) * 16 + (← hexValue? d)

/-- The character of a short escape. -/
def shortEscape? (c : Char) : Option Char :=
  match c with
  | '"' => some '"'
  | '\\' => some '\\'
  | '/' => some '/'
  | 'b' => some '\x08'
  | 'f' => some '\x0c'
  | 'n' => some '\n'
  | 'r' => some '\r'
  | 't' => some '\t'
  | _ => none

/-- A string up to its closing quote, as code points and UTF-16 units in reverse behind
those before it, and the text behind the quote. -/
def stringUnits (before : List Nat) : List Char → Option (List Nat × List Char)
  | [] => none
  | '"' :: rest => some (before, rest)
  | '\\' :: 'u' :: a :: b :: c :: d :: rest =>
    match hexUnit? a b c d with
    | some unit => stringUnits (unit :: before) rest
    | none => none
  | '\\' :: c :: rest =>
    match shortEscape? c with
    | some escaped => stringUnits (escaped.toNat :: before) rest
    | none => none
  | c :: rest =>
    if c == '\\' || c.toNat < 32 then none else stringUnits (c.toNat :: before) rest

/-- Code points from codes and units in reverse, in front of those behind them: two halves
of a pair are put together. -/
def joinUnits (behind : List CodePoint) : List Nat → List CodePoint
  | [] => behind
  | [unit] => .ofCode unit :: behind
  | low :: high :: rest =>
    if 0xD800 ≤ high && high < 0xDC00 && 0xDC00 ≤ low && low < 0xE000 then
      let code := 0x10000 + (high - 0xD800) * 0x400 + (low - 0xDC00)
      joinUnits (.ofCode code :: behind) rest
    else joinUnits (.ofCode low :: behind) (high :: rest)

/-- A string behind its opening quote. -/
def readString (text : List Char) : Except ReadError (Text × List Char) :=
  match stringUnits [] text with
  | some (units, rest) => .ok (⟨joinUnits [] units⟩, rest)
  | none => .error .malformed

/-! ## Numbers -/

/-- The digits at the start of a text and the text behind them. -/
def spanDigits (text : List Char) : List Char × List Char :=
  (text.takeWhile Char.isDigit, text.dropWhile Char.isDigit)

/-- The number that decimal digits spell. -/
def ofDigits (digits : List Char) : Nat :=
  Text.ofDigits (digits.map fun c => c.toNat - 48)

/-- The digits of a fraction at the start of a text, none if there is no fraction. -/
def fraction? : List Char → Option (List Char × List Char)
  | '.' :: rest =>
    match spanDigits rest with
    | ([], _) => none
    | reply => some reply
  | _ => none

/-- A power of ten at the start of a text, none if there is no such power. -/
def power? : List Char → Option (Int × List Char)
  | [] => none
  | mark :: rest =>
    if mark == 'e' || mark == 'E' then
      let (negative, digits) := match rest with
        | '+' :: digits => (false, digits)
        | '-' :: digits => (true, digits)
        | digits => (false, digits)
      match spanDigits digits with
      | ([], _) => none
      | (digits, behind) =>
        some (if negative then -(ofDigits digits) else ofDigits digits, behind)
    else none

/-- A number without its sign. -/
def readNumber (negative : Bool) (text : List Char) : Except ReadError (Json × List Char) :=
  let (whole, rest) := match text with
    | '0' :: rest => (['0'], rest)
    | text => spanDigits text
  if whole.isEmpty then .error .malformed
  else
    let fractionPart := fraction? rest
    let (decimals, rest) := fractionPart.getD ([], rest)
    let powerPart := power? rest
    let (power, rest) := powerPart.getD (0, rest)
    if fractionPart.isNone && powerPart.isNone then
      match Text.natural? whole with
      | some n => .ok (.integer (if negative then -n else n), rest)
      | none => .error (.tooLong whole.length)
    else
      let d : Decimal := ⟨ofDigits (whole ++ decimals), power - decimals.length⟩
      .ok (.floating (.ofDecimal negative d), rest)

/-- A word that stands for a value. -/
def readWord (text : List Char) : Except ReadError (Json × List Char) :=
  let words : List (String × Json) :=
    [("null", .null), ("true", .bool true), ("false", .bool false),
     ("NaN", .floating .undefined), ("Infinity", .floating (.infinite false)),
     ("-Infinity", .floating (.infinite true))]
  match words.findSome? fun (word, value) => (after? word.toList text).map (value, ·) with
  | some reply => .ok reply
  | none => .error .malformed

/-! ## Values -/

mutual

/-- A value at the start of a text. -/
def readValue : Nat → List Char → Except ReadError (Json × List Char)
  | 0, _ => .error .malformed
  | n + 1, text =>
    match text with
    | '"' :: rest => (readString rest).map fun (value, rest) => (.string value, rest)
    | '[' :: rest =>
      match skipBlanks rest with
      | ']' :: rest => .ok (.array [], rest)
      | rest => (readItems n rest).map fun (items, rest) => (.array items, rest)
    | '\x7b' :: rest =>
      match skipBlanks rest with
      | '\x7d' :: rest => .ok (.object [], rest)
      | rest => (readMembers n [] rest).map fun (members, rest) => (.object members, rest)
    | '-' :: rest =>
      match readWord text with
      | .ok reply => .ok reply
      | .error _ => readNumber true rest
    | c :: rest => if c.isDigit then readNumber false (c :: rest) else readWord text
    | [] => .error .malformed

/-- The items of a list up to its closing bracket. -/
def readItems : Nat → List Char → Except ReadError (List Json × List Char)
  | 0, _ => .error .malformed
  | n + 1, text => do
    let (item, rest) ← readValue n text
    match skipBlanks rest with
    | ']' :: rest => return ([item], rest)
    | ',' :: rest =>
      let (items, rest) ← readItems n (skipBlanks rest)
      return (item :: items, rest)
    | _ => throw .malformed

/-- The members of an object up to its closing bracket, added to those read before. -/
def readMembers : Nat → List (Text × Json) → List Char →
    Except ReadError (List (Text × Json) × List Char)
  | 0, _, _ => .error .malformed
  | n + 1, members, text =>
    match text with
    | '"' :: rest => do
      let (key, rest) ← readString rest
      match skipBlanks rest with
      | ':' :: rest =>
        let (value, rest) ← readValue n (skipBlanks rest)
        let members := put key value members
        match skipBlanks rest with
        | '\x7d' :: rest => return (members, rest)
        | ',' :: rest => readMembers n members (skipBlanks rest)
        | _ => throw .malformed
      | _ => throw .malformed
    | _ => .error .malformed

end

/-- The value that a whole text spells. Each nested value takes a character, so the length
of the text bounds the calls. -/
def read (text : List Char) : Except ReadError Json := do
  let (value, rest) ← readValue (2 * text.length + 2) (skipBlanks text)
  if (skipBlanks rest).isEmpty then return value else throw .malformed

end Scoreboard.Json
