import Scoreboard.Floating
import Scoreboard.Text.Quoted

/-!
# JSON values

The values of a settings file. Settings are not checked for their type when they are read,
so a namespace may turn out to be a number; such a value has a plain text, and whether it
counts as given does not depend on its type.
-/

namespace Scoreboard

/-- A JSON value. A number with a fraction or an exponent has limited precision, all others
are exact. -/
inductive Json where
  | null
  | bool (value : Bool)
  | integer (value : Int)
  | floating (value : Floating)
  | string (value : Text)
  | array (items : List Json)
  | object (members : List (Text × Json))
  deriving Repr, Inhabited

namespace Json

/-- Whether a value counts as given: null, false, zero and whatever is empty do not. -/
def isGiven : Json → Bool
  | null => false
  | bool value => value
  | integer value => value != 0
  | floating value => !value.isZero
  | string value => !value.isEmpty
  | array items => !items.isEmpty
  | object members => !members.isEmpty

mutual

/-- The plain text of a value inside another one, where texts stand between quotes. -/
def innerText : Json → String
  | null => "None"
  | bool true => "True"
  | bool false => "False"
  | integer value => toString value
  | floating value => value.text "inf" "nan"
  | string value => Text.quoted value
  | array items => "[" ++ ", ".intercalate (innerTexts items) ++ "]"
  | object members => "\x7b" ++ ", ".intercalate (memberTexts members) ++ "\x7d"

/-- The plain texts of items. -/
def innerTexts : List Json → List String
  | [] => []
  | item :: rest => item.innerText :: innerTexts rest

/-- The plain texts of members. -/
def memberTexts : List (Text × Json) → List String
  | [] => []
  | (key, value) :: rest => (Text.quoted key ++ ": " ++ value.innerText) :: memberTexts rest

end

/-- The plain text of a value. -/
def plainText : Json → Text
  | string value => value
  | other => other.innerText

/-- The value of a key. -/
def get? (key : Text) : List (Text × Json) → Option Json
  | [] => none
  | (name, value) :: rest => if name = key then some value else get? key rest

/-- A list of members with a value for a key: a key keeps its first place and takes the
new value. -/
def put (key : Text) (value : Json) : List (Text × Json) → List (Text × Json)
  | [] => [(key, value)]
  | (name, old) :: rest =>
    if name = key then (key, value) :: rest else (name, old) :: put key value rest

end Json

end Scoreboard
