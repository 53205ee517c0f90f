import Scoreboard.Text

/-!
# Names on disk

A disk keeps the name of a file as bytes. A character has the bytes of its UTF-8 encoding,
and the halves from `DC80` to `DCFF` stand for the bytes from 128 on; no other half has a
byte. When a name is given back, bytes that spell characters are these characters again, so
a name that was written with halves can come back without them.
-/

namespace Scoreboard

namespace CodePoint

/-- The bytes of a code point in the name of a file. -/
def bytes? (point : CodePoint) : Option (List UInt8) :=
  match point with
  | char c => some (String.utf8EncodeChar c)
  | half _ =>
    if 0xDC80 ≤ point.code ∧ point.code < 0xDD00 then some [(point.code - 0xDC00).toUInt8]
    else none

/-- The half that stands for a byte. -/
def ofByte (byte : UInt8) : CodePoint := ofCode (0xDC00 + byte.toNat)

end CodePoint

namespace Text

/-- The bytes of a text as the name of a file, none if a code point has none. -/
def bytes? (text : Text) : Option (List UInt8) :=
  (text.points.mapM CodePoint.bytes?).map List.flatten

/-- The character at the start of some bytes. -/
def firstChar? (bytes : List UInt8) : Option Char :=
  (ByteArray.mk (bytes.take 4).toArray).utf8DecodeChar? 0

/-- The code points that bytes are given back as. -/
def pointsOfBytes : List UInt8 → List CodePoint
  | [] => []
  | byte :: rest =>
    match firstChar? (byte :: rest) with
    | some c => .char c :: pointsOfBytes (rest.drop (c.utf8Size - 1))
    | none => .ofByte byte :: pointsOfBytes rest
termination_by bytes => bytes.length
decreasing_by all_goals simp only [List.length_drop, List.length_cons]; omega

/-- Whether a text has no lone half. -/
def isWhole (text : Text) : Bool := text.points.all fun point => point.char?.isSome

/-- The name under which a disk gives a text back. -/
def diskName (text : Text) : Text :=
  if text.isWhole then text
  else match text.bytes? with
    | some bytes => ⟨pointsOfBytes bytes⟩
    | none => text

/-- The number of bytes of a text; a half counts as one. -/
def byteLength (text : Text) : Nat :=
  text.points.foldl (fun n point => n + (point.char?.map Char.utf8Size).getD 1) 0

end Text

end Scoreboard
