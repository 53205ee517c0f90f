/-!
# Texts

A text is a list of code points. Besides the characters there are the halves of UTF-16
pairs: an escape in a JSON string can name a half without its other half, and a byte in the
name of a file that belongs to no character is given as one. What is printed, and the names
of files and namespaces, can therefore hold lone halves. They are kept apart from all
characters; they have a code, but no text with one in it can be encoded.
-/

namespace Scoreboard

/-- A character, or half of a UTF-16 pair by its distance from the first half. -/
inductive CodePoint where
  | char (c : Char)
  | half (offset : Fin 0x800)
  deriving DecidableEq, Repr, Inhabited

namespace CodePoint

/-- The code of the first half. -/
def firstHalf : Nat := 0xD800

/-- The code of a code point. -/
def code : CodePoint → Nat
  | char c => c.toNat
  | half offset => firstHalf + offset

/-- The code point of a code. -/
def ofCode (n : Nat) : CodePoint :=
  if h : firstHalf ≤ n ∧ n < 0xE000 then half ⟨n - firstHalf, by unfold firstHalf at *; omega⟩
  else char (Char.ofNat n)

/-- The character of a code point, none for a half. -/
def char? : CodePoint → Option Char
  | char c => some c
  | half _ => none

end CodePoint

/-- A list of code points. -/
structure Text where
  points : List CodePoint
  deriving DecidableEq, Repr, Inhabited

namespace Text

/-- The text without code points. -/
def empty : Text := ⟨[]⟩

instance : EmptyCollection Text := ⟨empty⟩

/-- The text of characters. -/
def ofChars (chars : List Char) : Text := ⟨chars.map .char⟩

/-- The text of a string. -/
def ofString (s : String) : Text := ofChars s.toList

instance : Coe String Text := ⟨ofString⟩

/-- One text behind another. -/
def append (first second : Text) : Text := ⟨first.points ++ second.points⟩

instance : Append Text := ⟨append⟩

/-- Whether there is nothing in a text. -/
def isEmpty (text : Text) : Bool := text.points.isEmpty

/-- Texts one behind the other, with a separator between them. -/
def join (separator : Text) : List Text → Text
  | [] => {}
  | [last] => last
  | first :: second :: rest => first ++ (separator ++ join separator (second :: rest))

/-- Texts on lines of their own, each closed by a newline. -/
def unlines (texts : List Text) : Text :=
  ⟨texts.flatMap fun text => text.points ++ [.char '\n']⟩

/-- The code points of a list with others in the place of each occurrence of a pattern, from
the left, behind those before them in reverse. -/
def replacePoints (pattern new before : List CodePoint) : List CodePoint → List CodePoint
  | [] => before.reverse
  | point :: rest =>
    if pattern.isPrefixOf (point :: rest) then
      replacePoints pattern new (new.reverse ++ before) (rest.drop (pattern.length - 1))
    else replacePoints pattern new (point :: before) rest
termination_by points => points.length
decreasing_by all_goals simp only [List.length_drop, List.length_cons]; omega

/-- The text with another one in the place of each occurrence of a pattern. -/
def replace (pattern new text : Text) : Text :=
  ⟨replacePoints pattern.points new.points [] text.points⟩

/-- The characters of a text, none if it holds a lone half. -/
def chars? (text : Text) : Option (List Char) := text.points.mapM CodePoint.char?

/-- The string of a text, none if it holds a lone half. -/
def string? (text : Text) : Option String := text.chars?.map String.ofList

/-- The string of a text, with the replacement character for each lone half. -/
def plain (text : Text) : String :=
  String.ofList (text.points.map fun point => point.char?.getD '�')

/-- The codes of a text. -/
def codes (text : Text) : List Nat := text.points.map CodePoint.code

/-- The order of texts, by the codes of their code points. -/
def le (first second : Text) : Bool := !decide (second.codes < first.codes)

end Text

end Scoreboard
