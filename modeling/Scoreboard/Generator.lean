import Scoreboard.Program
import Scoreboard.Scope
import Scoreboard.Script

/-!
# Generating commands

Every expression is compiled to a value. Declarations and assignments pass their own cell
down as the preferred destination, so that the outermost operation writes there directly and
not through a scratch slot. The left operand of an operation inherits the destination; the
right one never sees it. A variable on the left that the right operand assigns to is copied
away first.

A function has a block and a scope of its own. Its block is finished when its body is
compiled, so nested functions come before the function around them. When compiling fails,
what was done up to then stays: the commands of the current block, the declared names and
the finished blocks.
-/

namespace Scoreboard

/-- What generating commands changes: the block and scope being worked on, the finished
blocks, and the names taken by blocks. -/
structure Workspace where
  block : Block
  scope : Scope
  finished : List Block := []
  taken : List Text := []
  deriving DecidableEq, Repr, Inhabited

/-- A step of generating commands for a script with marks `α`. -/
abbrev Generate (α : Type) := EStateM (Diagnostic α) Workspace

namespace Workspace

/-- An empty workspace for a block of a name. -/
def ofName (name : Text) : Workspace :=
  { block := { name }, scope := { objective := name } }

/-- The workspace for the body of a function: its block starts by creating its objective, and
the finished blocks and taken names go on. -/
def enter (name : Text) (w : Workspace) : Workspace :=
  { block := ⟨name, [.addObjective name]⟩
    scope := { objective := name }
    finished := w.finished
    taken := w.taken.insert name }

/-- Back from a body to the function around it. -/
def leave (outer : Workspace) (inner : Workspace) : Workspace :=
  { outer with finished := inner.finished, taken := inner.taken }

/-- The block of a finished body closes by removing its objective. -/
def finish (w : Workspace) : Workspace :=
  { w with finished := w.finished ++ [w.block.push (.removeObjective w.block.name)] }

end Workspace

namespace Generate

variable {α : Type}

/-! ## Checks and single commands -/

/-- Fail at a place. -/
def fail {β : Type} (cause : Cause) (mark : α) : Generate α β :=
  throw ⟨cause, mark⟩

/-- Append a command to the current block. -/
def push (command : Command) : Generate α Unit :=
  modify fun w => { w with block := w.block.push command }

/-- Change the current scope. -/
def modifyScope (f : Scope → Scope) : Generate α Unit :=
  modify fun w => { w with scope := f w.scope }

/-- Require a type to exist. -/
def checkType (type : String) (mark : α) : Generate α Unit :=
  if knownTypes.contains type then return else fail (.unknownType type) mark

/-- Require the type of a declaration to exist, if it names one. -/
def checkOptionalType (type : Option String) (mark : α) : Generate α Unit :=
  match type with
  | some type => checkType type mark
  | none => return

/-- Require a value to be an integer. -/
def requireInt (value : Value) (mark : α) : Generate α Unit :=
  match value with
  | .constant _ => return
  | .stored _ => return
  | other => fail (.typeMismatch .int other.type) mark

/-- Copy a cell into another one, unless they are the same. -/
def copy (target source : Cell) : Generate α Unit :=
  if source = target then return else push (.copy target source)

/-- Write a value into a cell, unless it is there already. -/
def store (target : Cell) (value : Value) (mark : α) : Generate α Unit := do
  match value with
  | .constant n => push (.set target n)
  | .stored source => copy target source
  | other => fail (.typeMismatch .int other.type) mark

/-- The commands that apply an operation with a constant to a cell of a block. Sums and
differences have commands of their own for amounts from 0 to the largest score; any other
constant is put into a slot first. -/
def constantCommands (block : Text) (op : Operator) (target : Cell) (value : Int) :
    List Command :=
  let slot : Cell := ⟨block, .constant value⟩
  let viaSlot := [.set slot value, .operate op target slot]
  let shift (amount : Int) : List Command :=
    if 0 ≤ amount ∧ amount ≤ scoreMax then [.add target amount]
    else if 0 < -amount ∧ -amount ≤ scoreMax then [.remove target (-amount)]
    else viaSlot
  match op with
  | .add => shift value
  | .subtract => shift (-value)
  | .multiply => viaSlot
  | .divide => viaSlot

/-- Append several commands to the current block. -/
def pushAll (commands : List Command) : Generate α Unit :=
  modify fun w => { w with block := { w.block with commands := w.block.commands ++ commands } }

/-- Apply an operation with a constant to a cell. -/
def applyConstant (op : Operator) (target : Cell) (value : Int) : Generate α Unit := do
  pushAll (constantCommands (← get).block.name op target value)

/-- Combine two operands into a cell. Two constants are combined at once and need no
command. -/
def combine (op : Operator) (target : Cell) (left right : Value) (mark : α) :
    Generate α Value := do
  match left, right with
  | .constant a, .constant b =>
    if op = .divide ∧ b = 0 then fail .divisionByZero mark
    else return .constant (op.fold a b)
  | .stored a, .constant b =>
    copy target a
    applyConstant op target b
    return .stored target
  | .constant a, .stored b =>
    push (.set target a)
    push (.operate op target b)
    return .stored target
  | .stored a, .stored b =>
    copy target a
    push (.operate op target b)
    return .stored target
  | _, _ => return .stored target

/-- The value of a left operand that survives the right one: a variable that the right
operand assigns to is copied into the target. -/
def keepValue (target : Cell) (left right : Node α) (value : Value) : Generate α Value := do
  match left.storedVariable?, value with
  | some name, .stored source =>
    if right.assigns name then
      copy target source
      return .stored target
    return value
  | _, _ => return value

/-- Declare the parameters of a function in its scope. -/
def declareParameters : List (Parameter α) → Generate α Unit
  | [] => return
  | parameter :: rest => do
    if (← get).scope.declares parameter.name then
      fail (.redeclared .parameter parameter.name) parameter.mark
    modifyScope (Scope.declareVariable parameter.name)
    declareParameters rest

/-- Require the types of parameters to exist. -/
def checkParameterTypes : List (Parameter α) → Generate α Unit
  | [] => return
  | parameter :: rest => do
    checkType parameter.type parameter.mark
    checkParameterTypes rest

/-- Run the steps of a body in a workspace of its own, and come back to the function
around it also when they fail. -/
def within (name : Text) (body : Generate α Unit) : Generate α Unit := fun outer =>
  match body (outer.enter name) with
  | .ok _ inner => .ok () (outer.leave inner.finish)
  | .error e inner => .error e (outer.leave inner)

/-- Compile a function from the steps of its body: check what it declares, then run the
body in a workspace of its own. -/
def compileFunction (name : Text) (parameters : List (Parameter α))
    (result : Option String) (mark : α) (declared : Bool) (body : Generate α Unit) :
    Generate α Unit := do
  -- only a function of a script can find its name taken, and that is a string
  if (← get).taken.contains name || declared then
    fail (.redeclared .function name.plain) mark
  checkParameterTypes parameters
  checkOptionalType result mark
  within name do
    declareParameters parameters
    body

/-! ## Statements and expressions -/

mutual

/-- Compile a statement or expression. -/
def compile (space : Text) (context : Context) : Node α → Generate α Value
  | .declare name type mark => do
    if (← get).scope.declares name then fail (.redeclared .variable name) mark
    checkOptionalType type mark
    let cell := (← get).scope.cell name
    modifyScope (Scope.declareVariable name)
    return .undefined cell
  | .define name type value mark => do
    if (← get).scope.declares name then fail (.redeclared .variable name) mark
    checkOptionalType type mark
    let cell := (← get).scope.cell name
    let result ← compile space (context.withDestination cell) value
    store cell result mark
    modifyScope (Scope.declareVariable name)
    return .stored cell
  | .assign name value mark => do
    let scope := (← get).scope
    if !scope.declares name then fail (.unknownMember .variable name) mark
    if scope.isFunction name then fail (.typeMismatch .int .function) mark
    let cell := scope.cell name
    -- a variable that its own new value reads must keep its old value until then
    let inner := if value.references name then context.cleared
      else context.withDestination cell
    let result ← compile space inner value
    store cell result mark
    return .stored cell
  | .function name parameters result body mark => do
    let declared := (← get).scope.declares name
    compileFunction name parameters result mark declared (compileBody space body)
    modifyScope (Scope.declareFunction name (parameters.map (·.name)))
    return .function name
  | .call name arguments mark => do
    let scope := (← get).scope
    if !scope.declares name then fail (.unknownMember .function name) mark
    match scope.parameters? name with
    | none => fail (.typeMismatch .function .int) mark
    | some parameters =>
      if parameters.length ≠ arguments.length then
        fail (.argumentCount name parameters.length arguments.length) mark
      -- arguments live in the objective of the function, which must exist first
      if !parameters.isEmpty then push (.addObjective name)
      compileArguments space context name parameters arguments
      push (.call space name)
      return .function name
  | .raw text _ => do
    push (.raw text)
    return .undefined ⟨(← get).block.name, .rawResult⟩
  | .binary op left right mark => do
    let block := (← get).block.name
    let target := context.destination.getD (context.scratch block)
    let rightContext := if context.destination.isSome then context.cleared
      else context.deeper
    let first ← compile space context left
    let first ← keepValue target left right first
    let second ← compile space rightContext right
    requireInt first left.mark
    requireInt second right.mark
    combine op target first second mark
  | .integer value mark =>
    if inScoreRange value then return .constant value else fail .integerBounds mark
  | .string _ mark => fail (.typeMismatch .int .string) mark
  | .access name mark => do
    let scope := (← get).scope
    if !scope.declares name then fail (.unknownMember .variable name) mark
    if scope.isFunction name then return .function name
    return .stored (scope.cell name)

/-- Compile the statements of a body. -/
def compileBody (space : Text) : List (Node α) → Generate α Unit
  | [] => return
  | node :: rest => do
    let _ ← compile space {} node
    compileBody space rest

/-- Compile the arguments of a call into the parameters of the function. -/
def compileArguments (space : Text) (context : Context) (name : Text) :
    List String → List (Node α) → Generate α Unit
  | parameter :: parameters, argument :: arguments => do
    let target : Cell := ⟨name, .variable parameter⟩
    let value ← compile space (context.withDestination target) argument
    store target value argument.mark
    compileArguments space context name parameters arguments
  | _, _ => return

end

end Generate

/-! ## Whole scripts -/

/-- What is left of generating commands for a script: the finished blocks, the names taken by
blocks, and the fault that ended it. -/
structure Generation (α : Type) where
  finished : List Block
  taken : List Text
  fault : Option (Diagnostic α)
  deriving DecidableEq, Repr, Inhabited

/-- Generate the commands of a script as the body of a function without parameters. -/
def generate {α : Type} (space name : Text) (mark : α) (script : Script α) :
    Generation α :=
  let run := Generate.compileFunction name [] none mark false
    (Generate.compileBody space script)
  match run (Workspace.ofName name) with
  | .ok _ w => ⟨w.finished, w.taken, none⟩
  | .error fault w => ⟨w.finished, w.taken, some fault⟩

/-- A generator that is used for one script after another, with what its last run left. -/
structure Generator where
  space : Text
  finished : List Block := []
  taken : List Text := []
  deriving DecidableEq, Repr, Inhabited

namespace Generator

/-- A run starts without blocks and with no name taken. -/
def reset (g : Generator) : Generator := { space := g.space }

/-- The workspace for a block of a name. -/
def workspace (name : Text) (g : Generator) : Workspace :=
  { Workspace.ofName name with finished := g.finished, taken := g.taken }

/-- The generator with what is left in a workspace. -/
def keep (w : Workspace) (g : Generator) : Generator :=
  { g with finished := w.finished, taken := w.taken }

/-- Generate the commands of a script, and give the fault if there is one. -/
def run {α : Type} (name : Text) (mark : α) (script : Script α) (g : Generator) :
    Option (Diagnostic α) × Generator :=
  let g := g.reset
  let steps := Generate.compileFunction name [] none mark false
    (Generate.compileBody g.space script)
  match steps (g.workspace name) with
  | .ok _ w => (none, g.keep w)
  | .error fault w => (some fault, g.keep w)

end Generator

end Scoreboard
