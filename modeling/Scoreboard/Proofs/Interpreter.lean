import Mathlib
import Scoreboard.Script
import Scoreboard.Proofs.Machine

/-!
# An interpreter of scripts

The meaning of a script, without commands and cells. Operands and arguments are evaluated
from left to right, an assignment is an expression with a side effect, and a call starts from
a frame that holds only its parameters. Nothing of an enclosing function can be seen, so a
function is known by what it does with the values of its arguments.

What counts of a script is what its variables hold when a body ends. An `Activation` records
that, and evaluating a script gives the activations in the order in which they end: those of
the calls of a body first, its own last.
-/

namespace Scoreboard

/-- The end of a function body: the function, and the values of its variables and
parameters. -/
structure Activation where
  function : Text
  value : String → Option Int

/-- What a function does with the values of its arguments: the activations that end until
its call has ended. -/
abbrev Closure := List Int → Option (List Activation)

/-- What a body has declared so far, and the activations that have ended in its calls. -/
structure Frame where
  value : String → Option Int
  functions : String → Option Closure
  ended : List Activation

namespace Frame

/-- The frame at the start of a call. -/
def start (parameters : List String) (values : List Int) : Frame :=
  ⟨fun name => (parameters.zip values).lookup name, fun _ => none, []⟩

/-- The frame with a value for a variable. -/
def assign (name : String) (n : Int) (f : Frame) : Frame :=
  { f with value := Function.update f.value name (some n) }

/-- The frame with a function. -/
def bind (name : String) (closure : Closure) (f : Frame) : Frame :=
  { f with functions := Function.update f.functions name (some closure) }

/-- The frame behind a call. -/
def record (activations : List Activation) (f : Frame) : Frame :=
  { f with ended := f.ended ++ activations }

/-- All activations of a body that ends in the frame. -/
def close (function : Text) (f : Frame) : List Activation :=
  f.ended ++ [⟨function, f.value⟩]

theorem assign_value_self (name : String) (n : Int) (f : Frame) :
    (f.assign name n).value name = some n := Function.update_self ..

/-- An assignment changes one variable only. -/
theorem assign_value_of_ne {name other : String} (h : other ≠ name) (n : Int)
    (f : Frame) : (f.assign name n).value other = f.value other :=
  Function.update_of_ne h ..

theorem bind_functions_self (name : String) (closure : Closure) (f : Frame) :
    (f.bind name closure).functions name = some closure := Function.update_self ..

/-- A declaration changes one function only. -/
theorem bind_functions_of_ne {name other : String} (h : other ≠ name) (closure : Closure)
    (f : Frame) : (f.bind name closure).functions other = f.functions other :=
  Function.update_of_ne h ..

end Frame

namespace Node

variable {α : Type}

mutual

/-- Evaluate a statement or expression: its number, if it has one, and the frame behind it. A
variable without a first value holds 0. There is no result if something is used that has no
number, or is not declared, and for raw commands. -/
def evaluate : Node α → Frame → Option (Option Int × Frame)
  | declare name _ _, f => some (none, f.assign name 0)
  | define name _ value _, f => do
    let (some n, f) ← evaluate value f | none
    return (some n, f.assign name n)
  | assign name value _, f => do
    let _ ← f.value name
    let (some n, f) ← evaluate value f | none
    return (some n, f.assign name n)
  | function name parameters _ body _, f =>
    some (none, f.bind name fun values =>
      if values.length = parameters.length then
        (evaluateBody body (.start (parameters.map (·.name)) values)).map (·.close name)
      else none)
  | call name arguments _, f => do
    let closure ← f.functions name
    let (values, f) ← evaluateArguments arguments f
    let activations ← closure values
    return (none, f.record activations)
  | raw _ _, _ => none
  | binary op left right _, f => do
    let (some a, f) ← evaluate left f | none
    let (some b, f) ← evaluate right f | none
    return (some (op.apply a b), f)
  | integer n _, f => some (some n, f)
  | string _ _, _ => none
  | access name _, f =>
    match f.value name with
    | some n => some (some n, f)
    | none => (f.functions name).map fun _ => (none, f)

/-- Evaluate the statements of a body. -/
def evaluateBody : List (Node α) → Frame → Option Frame
  | [], f => some f
  | node :: rest, f => do
    let (_, f) ← evaluate node f
    evaluateBody rest f

/-- Evaluate the arguments of a call. -/
def evaluateArguments : List (Node α) → Frame → Option (List Int × Frame)
  | [], f => some ([], f)
  | node :: rest, f => do
    let (some n, f) ← evaluate node f | none
    let (values, f) ← evaluateArguments rest f
    return (n :: values, f)

end

/-- What a function with the given body does with the values of its arguments. -/
def closure (name : Text) (parameters : List String) (body : List (Node α)) : Closure :=
  fun values =>
    if values.length = parameters.length then
      (evaluateBody body (.start parameters values)).map (·.close name)
    else none

end Node

/-- Evaluate a script as the body of a function without parameters: all activations, that of
the script last. -/
def Script.evaluate {α : Type} (name : Text) (script : Script α) : Option (List Activation) :=
  Node.closure name [] script []

/-! ## Results of evaluating -/

namespace Node

variable {α : Type} {name : String} {type : Option String} {m : α} {f f₁ f₂ : Frame}

/-- The value is computed before the variable exists, and is the value of the statement too. -/
theorem evaluate_define {value : Node α} {n : Int}
    (h : value.evaluate f = some (some n, f₁)) :
    (define name type value m).evaluate f = some (some n, f₁.assign name n) := by
  simp [evaluate, h]

/-- Only a variable that has a value can be assigned to. -/
theorem evaluate_assign {value : Node α} {n old : Int} (hold : f.value name = some old)
    (h : value.evaluate f = some (some n, f₁)) :
    (assign name value m).evaluate f = some (some n, f₁.assign name n) := by
  simp [evaluate, hold, h]

/-- Declaring a function runs nothing; what it does is kept for its calls. -/
theorem evaluate_function {parameters : List (Parameter α)} {result : Option String}
    {body : List (Node α)} :
    (function name parameters result body m).evaluate f
      = some (none, f.bind name (closure name (parameters.map (·.name)) body)) := by
  unfold closure
  simp only [evaluate, List.length_map]

/-- A call has no value, but leaves the activations of the function behind. -/
theorem evaluate_call {arguments : List (Node α)} {run : Closure} {values : List Int}
    {activations : List Activation} (hrun : f.functions name = some run)
    (harguments : evaluateArguments arguments f = some (values, f₁))
    (hvalues : run values = some activations) :
    (call name arguments m).evaluate f = some (none, f₁.record activations) := by
  simp [evaluate, hrun, harguments, hvalues]

/-- Operands are evaluated from the left, the second one behind the changes of the first. -/
theorem evaluate_binary {op : Operator} {left right : Node α} {a b : Int}
    (hleft : left.evaluate f = some (some a, f₁))
    (hright : right.evaluate f₁ = some (some b, f₂)) :
    (binary op left right m).evaluate f = some (some (op.apply a b), f₂) := by
  simp [evaluate, hleft, hright]

theorem evaluate_access {n : Int} (h : f.value name = some n) :
    (access name m).evaluate f = some (some n, f) := by
  simp [evaluate, h]

/-- The name of a function may stand alone. -/
theorem evaluate_access_function {run : Closure} (h : f.functions name = some run) :
    ∃ value, (access name m).evaluate f = some (value, f) := by
  cases hvalue : f.value name with
  | some n => exact ⟨some n, evaluate_access hvalue⟩
  | none => exact ⟨none, by simp [evaluate, hvalue, h]⟩

/-- The value of a statement is dropped, and its changes stay. -/
theorem evaluateBody_cons {node : Node α} {rest : List (Node α)} {value : Option Int}
    (h : node.evaluate f = some (value, f₁)) :
    evaluateBody (node :: rest) f = evaluateBody rest f₁ := by
  simp [evaluateBody, h]

/-- Arguments are evaluated from the left. -/
theorem evaluateArguments_cons {node : Node α} {rest : List (Node α)} {n : Int}
    {values : List Int} (h : node.evaluate f = some (some n, f₁))
    (hrest : evaluateArguments rest f₁ = some (values, f₂)) :
    evaluateArguments (node :: rest) f = some (n :: values, f₂) := by
  simp [evaluateArguments, h, hrest]

end Node

end Scoreboard
