import Scoreboard.Script
import Scoreboard.Text.Quoted

/-!
# The outline of a script

A script as an indented list: one line for a node, and its children below it, two columns
further in. Drawing keeps the depth of the next line, which goes up by one for the children of a
node and comes back after them, so that one tree can be drawn after the other.
-/

namespace Scoreboard

/-! ## Lines -/

namespace Node

variable {α : Type}

/-- A type after its colon, nothing for none. -/
def typeSuffix : Option String → String
  | some type => ": " ++ type
  | none => ""

/-- A title with something in brackets. -/
def titled (title inner : String) : String := title ++ "(" ++ inner ++ ")"

/-- The line of a node, without its indentation. -/
def headline : Node α → String
  | declare name type _ => titled "VariableDeclaration" (name ++ typeSuffix type)
  | define name type _ _ => titled "VariableDeclaration" (name ++ typeSuffix type)
  | assign name _ _ => titled "VariableAssign" name
  | function name parameters result _ _ =>
    let list := ", ".intercalate (parameters.map fun p => p.name ++ ": " ++ p.type)
    titled "FunctionDeclaration" (titled name list ++ typeSuffix result)
  | call name _ _ => titled "FunctionCall" name
  | raw text _ => titled "RawCode" (Text.quoted text)
  | binary op _ _ _ => op.title
  | integer value _ => titled "IntegerLiteral" (toString value)
  | string value _ => titled "StringLiteral" (Text.quoted value)
  | access name _ => titled "VariableAccess" name

end Node

/-! ## Drawing -/

/-- Steps of drawing, with the depth of the next line. -/
abbrev Outliner := StateM Nat

namespace Outliner

/-- The indentation of a depth. -/
def indentation (depth : Nat) : String :=
  String.ofList (List.replicate (2 * depth) ' ')

/-- A line at the depth that is reached. -/
def line (headline : String) : Outliner String := do
  return indentation (← get) ++ headline

/-- A step one level further in. -/
def inside {α : Type} (step : Outliner α) : Outliner α := do
  modify (· + 1)
  let result ← step
  modify (· - 1)
  return result

/-- A line with texts below it. -/
def above (head : String) (texts : List String) : String :=
  head ++ String.join (texts.map ("\n" ++ ·))

end Outliner

namespace Node

open Outliner

variable {α : Type}

mutual

/-- Draw a tree. -/
def draw : Node α → Outliner String
  | declare name type m => line (declare name type m).headline
  | define name type value m => do
    let head ← line (define name type value m).headline
    return above head (← inside do return [← value.draw])
  | assign name value m => do
    let head ← line (assign name value m).headline
    return above head (← inside do return [← value.draw])
  | function name parameters result body m => do
    let head ← line (function name parameters result body m).headline
    return above head (← inside (drawAll body))
  | call name arguments m => do
    let head ← line (call name arguments m).headline
    return above head (← inside (drawAll arguments))
  | raw text m => line (raw text m).headline
  | binary op left right m => do
    let head ← line (binary op left right m).headline
    return above head (← inside do return [← left.draw, ← right.draw])
  | integer value m => line (integer value m).headline
  | string value m => line (string value m).headline
  | access name m => line (access name m).headline

/-- Draw trees one after the other. -/
def drawAll : List (Node α) → Outliner (List String)
  | [] => return []
  | node :: rest => return (← node.draw) :: (← drawAll rest)

end

/-- The outline of a tree. -/
def outline (node : Node α) : String := (node.draw.run 0).1

end Node

namespace Script

variable {α : Type}

/-- Draw a script, below a line of its own. -/
def draw (script : Script α) : Outliner String :=
  return "\n".intercalate ("Program" :: (← Outliner.inside (Node.drawAll script)))

/-- The outline of a script. -/
def outline (script : Script α) : String := ((draw script).run 0).1

end Script

end Scoreboard
