import Scoreboard.Command
import Scoreboard.Diagnostic

/-!
# Values and scopes

What the generator knows while it compiles. A compiled expression has a `Value`: a constant,
or the cell its result will be in. A `Scope` holds the names declared in one function body;
names of an enclosing function are not visible. A `Context` tells an operation where its
result should go.
-/

namespace Scoreboard

/-- The result of compiling an expression. -/
inductive Value where
  /-- An integer known while compiling. -/
  | constant (value : Int)
  /-- The score in a cell. -/
  | stored (cell : Cell)
  /-- A cell that was declared and has no value yet. -/
  | undefined (cell : Cell)
  /-- A function. -/
  | function (name : String)
  deriving DecidableEq, Repr, Inhabited

namespace Value

/-- The type of a value. -/
def type : Value → ValueType
  | constant _ => .int
  | stored _ => .int
  | undefined _ => .undefined
  | function _ => .function

end Value

/-- The types that a declaration may name. -/
def knownTypes : List String := ["int"]

/-! ## Scopes -/

/-- The names declared in a function body, and the parameters of its functions. -/
structure Scope where
  objective : Text
  names : List String := []
  functions : List (String × List String) := []
  deriving DecidableEq, Repr, Inhabited

namespace Scope

/-- Whether a name is declared. -/
def declares (name : String) (scope : Scope) : Bool :=
  scope.names.contains name

/-- The parameters of a declared function. -/
def parameters? (name : String) (scope : Scope) : Option (List String) :=
  (scope.functions.find? (·.1 == name)).map (·.2)

/-- Whether a name is that of a function. -/
def isFunction (name : String) (scope : Scope) : Bool :=
  (scope.parameters? name).isSome

/-- The scope with one more variable. -/
def declareVariable (name : String) (scope : Scope) : Scope :=
  { scope with names := scope.names.insert name }

/-- The scope with one more function; a second one of a name takes the place of the
first. -/
def declareFunction (name : String) (parameters : List String) (scope : Scope) : Scope :=
  { scope with
    names := scope.names.insert name
    functions := (name, parameters) :: scope.functions.filter (·.1 != name) }

/-- The cell of a variable. -/
def cell (name : String) (scope : Scope) : Cell :=
  ⟨scope.objective, .variable name⟩

end Scope

/-! ## Contexts -/

/-- Where the result of an operation should go: a cell if one is preferred, else the scratch
slot of a depth. -/
structure Context where
  destination : Option Cell := none
  depth : Int := 0
  deriving DecidableEq, Repr, Inhabited

namespace Context

/-- The context with a preferred cell. -/
def withDestination (cell : Cell) (context : Context) : Context :=
  { context with destination := some cell }

/-- The context without a preferred cell. -/
def cleared (context : Context) : Context :=
  { context with destination := none }

/-- The context for an operand that must leave the scratch slot alone. -/
def deeper (context : Context) : Context :=
  { destination := none, depth := context.depth + 1 }

/-- The scratch slot of a context. -/
def scratch (objective : Text) (context : Context) : Cell :=
  ⟨objective, .scratch context.depth⟩

end Context

end Scoreboard
