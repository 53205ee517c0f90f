import Scoreboard.Text.Characters
import Scoreboard.Text.DiskName

/-!
# Paths

A path is a list of names behind an anchor. Repeated slashes, single dots and a slash at the
end do not count; double dots are names like any other, because what they lead to depends on
the folders. Exactly two slashes at the start are an anchor of their own.
-/

namespace Scoreboard

/-- Where a path starts. -/
inductive Anchor where
  | here
  | root
  | doubleRoot
  deriving DecidableEq, Repr, Inhabited

/-- The text of an anchor. -/
def Anchor.text : Anchor → String
  | here => ""
  | root => "/"
  | doubleRoot => "//"

/-- A path. -/
structure Path where
  anchor : Anchor := .here
  parts : List Text := []
  deriving DecidableEq, Repr, Inhabited

namespace Path

/-- The separator of names. -/
def slash : CodePoint := .char '/'

/-- The mark of suffixes. -/
def dot : CodePoint := .char '.'

/-- The anchor of a text. -/
def anchorOf : List CodePoint → Anchor
  | .char '/' :: .char '/' :: .char '/' :: _ => .root
  | .char '/' :: .char '/' :: _ => .doubleRoot
  | .char '/' :: _ => .root
  | _ => .here

/-- The names in a text. -/
def partsOf (points : List CodePoint) : List Text :=
  ((Text.split slash points).filter fun part => part ≠ [] ∧ part ≠ [dot]).map Text.mk

/-- The path that a text writes. -/
def ofText (text : Text) : Path :=
  ⟨anchorOf text.points, partsOf text.points⟩

/-- The text of a path; the empty path is a dot. -/
def text (path : Path) : Text :=
  if path.anchor = .here ∧ path.parts = [] then "."
  else path.anchor.text ++ Text.join "/" path.parts

/-- A path behind another one. A path with an anchor takes the place of the other. -/
def append (left right : Path) : Path :=
  if right.anchor = .here then ⟨left.anchor, left.parts ++ right.parts⟩ else right

/-- The path of a text behind another path. -/
def join (left : Path) (right : Text) : Path := left.append (ofText right)

/-- The path without its last name. -/
def parent (path : Path) : Path := { path with parts := path.parts.dropLast }

/-- The last name of a path. -/
def name (path : Path) : Text := path.parts.getLastD {}

/-- A name without its last suffix. A dot at either end of the name starts no suffix. -/
def stemOf (name : List CodePoint) : List CodePoint :=
  let suffix := name.reverse.takeWhile (· != dot)
  let length := name.length - (suffix.length + 1)
  if suffix = [] ∨ length = 0 then name else name.take length

/-- The last name of a path without its last suffix. -/
def stem (path : Path) : Text := ⟨stemOf path.name.points⟩

end Path

/-- Why a text can name no file on any disk. -/
inductive PathFlaw where
  | nullCharacter
  | loneHalf
  deriving DecidableEq, Repr, Inhabited

/-- The flaw of a text as a path: a half that stands for no byte, or a null character. -/
def pathFlaw? (text : Text) : Option PathFlaw :=
  if text.bytes?.isNone then some .loneHalf
  else if text.points.contains (.char '\x00') then some .nullCharacter
  else none

end Scoreboard
