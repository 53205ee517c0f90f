import Scoreboard.Arithmetic

/-!
# Scripts

The tree of a script. Every node carries a mark `α`: a span when the tree was read from a
text, or nothing when only its meaning counts. Statements and expressions are one type,
because a declaration or a call may stand where an expression does; which of these places
are refused is a matter of generating commands, not of the tree.
-/

namespace Scoreboard

/-- A parameter of a function with its type. -/
structure Parameter (α : Type) where
  name : String
  type : String
  mark : α
  deriving DecidableEq, Repr, Inhabited

/-- A statement or expression. -/
inductive Node (α : Type) where
  /-- A variable with a type and no value yet. -/
  | declare (name : String) (type : Option String) (mark : α)
  /-- A variable with its first value. -/
  | define (name : String) (type : Option String) (value : Node α) (mark : α)
  /-- A new value for a variable. -/
  | assign (name : String) (value : Node α) (mark : α)
  /-- A function with its body. -/
  | function (name : String) (parameters : List (Parameter α)) (result : Option String)
      (body : List (Node α)) (mark : α)
  /-- A call of a function. -/
  | call (name : String) (arguments : List (Node α)) (mark : α)
  /-- A command given as text. -/
  | raw (text : String) (mark : α)
  /-- An arithmetic operation. -/
  | binary (op : Operator) (left right : Node α) (mark : α)
  /-- An integer. -/
  | integer (value : Int) (mark : α)
  /-- A string. -/
  | string (value : String) (mark : α)
  /-- The value of a variable. -/
  | access (name : String) (mark : α)
  deriving Repr, Inhabited

/-- A script: the statements of its implicit main function. -/
abbrev Script (α : Type) := List (Node α)

namespace Node

variable {α β : Type}

/-- The mark of a node. -/
def mark : Node α → α
  | declare _ _ m => m
  | define _ _ _ m => m
  | assign _ _ m => m
  | function _ _ _ _ m => m
  | call _ _ m => m
  | raw _ m => m
  | binary _ _ _ m => m
  | integer _ m => m
  | string _ m => m
  | access _ m => m

/-- The nodes directly below a node, in source order. -/
def children : Node α → List (Node α)
  | declare _ _ _ => []
  | define _ _ value _ => [value]
  | assign _ value _ => [value]
  | function _ _ _ body _ => body
  | call _ arguments _ => arguments
  | raw _ _ => []
  | binary _ left right _ => [left, right]
  | integer _ _ => []
  | string _ _ => []
  | access _ _ => []

/-! ## Changing marks -/

mutual

/-- The same tree with other marks. -/
def mapMark (f : α → β) : Node α → Node β
  | declare name type m => .declare name type (f m)
  | define name type value m => .define name type (value.mapMark f) (f m)
  | assign name value m => .assign name (value.mapMark f) (f m)
  | function name parameters result body m =>
    .function name (parameters.map fun p => ⟨p.name, p.type, f p.mark⟩) result
      (mapMarks f body) (f m)
  | call name arguments m => .call name (mapMarks f arguments) (f m)
  | raw text m => .raw text (f m)
  | binary op left right m => .binary op (left.mapMark f) (right.mapMark f) (f m)
  | integer value m => .integer value (f m)
  | string value m => .string value (f m)
  | access name m => .access name (f m)

/-- The same trees with other marks. -/
def mapMarks (f : α → β) : List (Node α) → List (Node β)
  | [] => []
  | node :: rest => node.mapMark f :: mapMarks f rest

end

/-- The tree without its marks. -/
def erase (node : Node α) : Node Unit := node.mapMark fun _ => ()

/-! ## Variables of an expression

What the generator has to know before it lets an operation write into a slot: which
variables an expression touches. Bodies of functions have variables of their own and do not
count. -/

mutual

/-- Whether an expression reads or writes a variable. -/
def references (name : String) : Node α → Bool
  | define _ _ value _ => value.references name
  | assign target value _ => target == name || value.references name
  | call _ arguments _ => anyReferences name arguments
  | binary _ left right _ => left.references name || right.references name
  | access target _ => target == name
  | declare _ _ _ => false
  | function _ _ _ _ _ => false
  | raw _ _ => false
  | integer _ _ => false
  | string _ _ => false

/-- Whether one of the expressions reads or writes a variable. -/
def anyReferences (name : String) : List (Node α) → Bool
  | [] => false
  | node :: rest => node.references name || anyReferences name rest

end

mutual

/-- Whether an expression writes a variable. -/
def assigns (name : String) : Node α → Bool
  | define _ _ value _ => value.assigns name
  | assign target value _ => target == name || value.assigns name
  | call _ arguments _ => anyAssigns name arguments
  | binary _ left right _ => left.assigns name || right.assigns name
  | access _ _ => false
  | declare _ _ _ => false
  | function _ _ _ _ _ => false
  | raw _ _ => false
  | integer _ _ => false
  | string _ _ => false

/-- Whether one of the expressions writes a variable. -/
def anyAssigns (name : String) : List (Node α) → Bool
  | [] => false
  | node :: rest => node.assigns name || anyAssigns name rest

end

/-- The variable whose slot holds the value of an expression, if there is one. -/
def storedVariable? : Node α → Option String
  | assign name _ _ => some name
  | access name _ => some name
  | _ => none

end Node

end Scoreboard
