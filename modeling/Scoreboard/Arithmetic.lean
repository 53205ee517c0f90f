/-!
# Arithmetic of scores

Scores are integers of 32 bits. Sums, differences and products wrap around, and a division
goes to the floor.
-/

namespace Scoreboard

/-- The smallest score. -/
def scoreMin : Int := -2147483648

/-- The largest score. -/
def scoreMax : Int := 2147483647

/-- Whether an integer is a score. -/
def inScoreRange (n : Int) : Bool :=
  scoreMin ≤ n && n ≤ scoreMax

/-- The score that an integer wraps around to. -/
def wrapScore (n : Int) : Int :=
  n.bmod 4294967296

/-- The four arithmetic operators. -/
inductive Operator where
  | add
  | subtract
  | multiply
  | divide
  deriving DecidableEq, Repr, Inhabited

namespace Operator

/-- The sign that writes an operator, in scripts and in commands. -/
def symbol : Operator → String
  | add => "+"
  | subtract => "-"
  | multiply => "*"
  | divide => "/"

/-- The name of an operation in the outline of a script. -/
def title : Operator → String
  | add => "Addition"
  | subtract => "Subtraction"
  | multiply => "Multiplication"
  | divide => "Division"

/-- How tightly an operator binds. -/
def precedence : Operator → Nat
  | add => 1
  | subtract => 1
  | multiply => 2
  | divide => 2

/-- The result of an operation on two scores. A quotient by zero is taken as zero; the
callers refuse it before they come here. -/
def fold : Operator → Int → Int → Int
  | add, a, b => wrapScore (a + b)
  | subtract, a, b => wrapScore (a - b)
  | multiply, a, b => wrapScore (a * b)
  | divide, a, b => if b = 0 then 0 else wrapScore (a.fdiv b)

end Operator

end Scoreboard
