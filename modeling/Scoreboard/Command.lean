import Scoreboard.Arithmetic
import Scoreboard.Text

/-!
# Commands

The commands a script is compiled to. Scores live in cells: an objective, named after the
function it belongs to, and a slot in it. A command is data; `Command.text` writes it the way
the game reads it.
-/

namespace Scoreboard

/-! ## Slots -/

/-- A slot of an objective. -/
inductive Slot where
  /-- The slot of a variable. -/
  | variable (name : String)
  /-- A slot for an intermediate result, one for each depth. -/
  | scratch (depth : Int)
  /-- The slot of a constant that an operation needs as an operand. -/
  | constant (value : Int)
  /-- The slot that a raw command stands for. -/
  | rawResult
  /-- Any other score holder. -/
  | holder (name : String)
  deriving DecidableEq, Repr, Inhabited

namespace Slot

/-- A decimal number without sign and leading zeros. -/
def natural? (text : List Char) : Option Nat :=
  if text.isEmpty || !text.all Char.isDigit then none
  else
    let value := text.foldl (fun n c => 10 * n + (c.toNat - 48)) 0
    if (toString value).toList = text then some value else none

/-- A decimal number that may be negative. -/
def integer? : List Char → Option Int
  | '-' :: digits =>
    match natural? digits with
    | some 0 => none
    | some n => some (-n)
    | none => none
  | digits => (natural? digits).map Int.ofNat

/-- The text of a slot. -/
def text : Slot → String
  | .variable name => "$" ++ name
  | scratch depth => "$$temp" ++ (if depth = 0 then "" else toString depth)
  | constant value => "%" ++ toString value
  | rawResult => "$$raw"
  | holder name => name

/-- The slot of a text, such that its text is the given one. -/
def ofText (text : String) : Slot :=
  match text.toList with
  | '$' :: '$' :: 't' :: 'e' :: 'm' :: 'p' :: depth =>
    let other := Slot.variable (String.ofList ('$' :: 't' :: 'e' :: 'm' :: 'p' :: depth))
    match depth, integer? depth with
    | [], _ => scratch 0
    | _, some n => if n = 0 then other else scratch n
    | _, none => other
  | ['$', '$', 'r', 'a', 'w'] => rawResult
  | '$' :: name => .variable (String.ofList name)
  | '%' :: digits =>
    match integer? digits with
    | some value => constant value
    | none => holder text
  | _ => holder text

end Slot

/-- A slot in an objective. -/
structure Cell where
  objective : Text
  slot : Slot
  deriving DecidableEq, Repr, Inhabited

/-! ## Texts of commands -/

namespace CommandText

/-- Create an objective. -/
def addObjective (objective : Text) : Text :=
  "scoreboard objectives add " ++ objective ++ " dummy"

/-- Remove an objective with its scores. -/
def removeObjective (objective : Text) : Text :=
  "scoreboard objectives remove " ++ objective

/-- Give a slot a value. -/
def set (slot : String) (objective : Text) (value : Int) : Text :=
  "scoreboard players set " ++ slot ++ " " ++ objective ++ " " ++ toString value

/-- Add an amount to a slot. -/
def add (slot : String) (objective : Text) (amount : Int) : Text :=
  "scoreboard players add " ++ slot ++ " " ++ objective ++ " " ++ toString amount

/-- Take an amount from a slot. -/
def remove (slot : String) (objective : Text) (amount : Int) : Text :=
  "scoreboard players remove " ++ slot ++ " " ++ objective ++ " " ++ toString amount

/-- Combine a slot with another one. The sign `=` copies; any other sign is written before
an `=`. -/
def operation (slot : String) (objective : Text) (sign sourceSlot : String)
    (sourceObjective : Text) : Text :=
  let sign := if sign = "=" then sign else sign ++ "="
  "scoreboard players operation " ++ slot ++ " " ++ objective ++ " " ++ sign ++ " " ++ sourceSlot
    ++ " " ++ sourceObjective

/-- Run a function. -/
def call (space name : Text) : Text :=
  "function " ++ space ++ ":" ++ name

end CommandText

/-- A command. -/
inductive Command where
  | addObjective (objective : Text)
  | removeObjective (objective : Text)
  | set (target : Cell) (value : Int)
  | add (target : Cell) (amount : Int)
  | remove (target : Cell) (amount : Int)
  | copy (target source : Cell)
  | operate (op : Operator) (target source : Cell)
  | call (space name : Text)
  | raw (text : String)
  deriving DecidableEq, Repr, Inhabited

/-- A command as the game reads it. -/
def Command.text : Command → Text
  | addObjective objective => CommandText.addObjective objective
  | removeObjective objective => CommandText.removeObjective objective
  | set target value => CommandText.set target.slot.text target.objective value
  | add target amount => CommandText.add target.slot.text target.objective amount
  | remove target amount => CommandText.remove target.slot.text target.objective amount
  | copy target source =>
    CommandText.operation target.slot.text target.objective "=" source.slot.text
      source.objective
  | operate op target source =>
    CommandText.operation target.slot.text target.objective op.symbol source.slot.text
      source.objective
  | call space name => CommandText.call space name
  | raw text => text

end Scoreboard
