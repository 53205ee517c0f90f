import Scoreboard.Decimal

/-!
# Numbers of limited precision

A number with a fraction or a power of ten is kept with 53 significant bits. Reading takes
the nearest such number to a decimal one, of two equally near ones the even one. Writing
takes the fewest digits that read back, and of several such texts the nearest to the number.
All of this is done in exact arithmetic of naturals.
-/

namespace Scoreboard

/-- The number `significand * 2 ^ exponent`. The significand has 53 bits, or fewer with the
least exponent. -/
structure Binary where
  significand : Nat
  exponent : Int
  deriving DecidableEq, Repr, Inhabited

namespace Binary

/-- The least exponent. -/
def leastExponent : Int := -1074

/-- The greatest exponent. -/
def greatestExponent : Int := 971

/-- The number zero. -/
def zero : Binary := ⟨0, leastExponent⟩

/-- A quotient rounded to the nearest natural, a half to the even one. -/
def roundQuotient (n d : Nat) : Nat :=
  let quotient := n / d
  let rest := 2 * (n % d)
  if d < rest ∨ (rest = d ∧ quotient % 2 = 1) then quotient + 1 else quotient

/-- Numerator and denominator of `n / d` in units of `2 ^ exponent`. -/
def inUnits (n d : Nat) (exponent : Int) : Nat × Nat :=
  (n * Nat.pow 2 (-exponent).toNat, d * Nat.pow 2 exponent.toNat)

/-- The exponent with which `n / d` has 53 bits before the point, if it is not too small. -/
def fittingExponent (n d : Nat) : Int :=
  let exponent := max ((n.log2 : Int) - d.log2 - 53) leastExponent
  let (n, d) := inUnits n d exponent
  if n / d < Nat.pow 2 53 then exponent else exponent + 1

/-- The number nearest to `n / d`. -/
def ofQuotient (n d : Nat) : Binary :=
  let exponent := fittingExponent n d
  let (n, d) := inUnits n d exponent
  let significand := roundQuotient n d
  if significand = Nat.pow 2 53 then ⟨Nat.pow 2 52, exponent + 1⟩ else ⟨significand, exponent⟩

/-- The number nearest to a decimal one, none if that is too large. Decimals far beyond the
range are not computed. -/
def nearest? (d : Decimal) : Option Binary :=
  if d.digits = 0 ∨ d.scale < -330 then some zero
  else if 310 < d.scale then none
  else
    let x := ofQuotient (d.digits * Nat.pow 10 d.exponent.toNat) (Nat.pow 10 (-d.exponent).toNat)
    if x.exponent ≤ greatestExponent then some x else none

/-- All digits of a number. -/
def exact (x : Binary) : Decimal :=
  if 0 ≤ x.exponent then ⟨x.significand * Nat.pow 2 x.exponent.toNat, 0⟩
  else ⟨x.significand * Nat.pow 5 (-x.exponent).toNat, x.exponent⟩

/-- The decimal of at most `n` digits that reads back and is nearest to a number. -/
def withDigits? (x : Binary) (n : Nat) : Option Decimal :=
  let all := x.exact
  let cut := (Decimal.figures all.digits).length - n
  let unit := Nat.pow 10 cut
  let below : Decimal := ⟨all.digits / unit, all.exponent + cut⟩
  let above : Decimal := ⟨below.digits + 1, below.exponent⟩
  let rest := 2 * (all.digits % unit)
  let belowIsNearer := rest < unit ∨ (rest = unit ∧ below.digits % 2 = 0)
  match nearest? below == some x, nearest? above == some x with
  | true, true => some (if belowIsNearer then below else above)
  | true, false => some below
  | false, true => some above
  | false, false => none

/-- The decimal of the fewest digits that reads back. Seventeen digits are enough. -/
def shortest (x : Binary) : Decimal :=
  let d := ((List.range' 1 17).findSome? x.withDigits?).getD x.exact
  d.stripZeros (Decimal.figures d.digits).length

/-- The text of a number. -/
def text (x : Binary) : List Char :=
  if x.significand = 0 then ['0', '.', '0'] else x.shortest.text

end Binary

/-- A number with its sign, or one of the values beyond all numbers. -/
inductive Floating where
  | finite (negative : Bool) (size : Binary)
  | infinite (negative : Bool)
  | undefined
  deriving DecidableEq, Repr, Inhabited

namespace Floating

/-- The value of a decimal number; beyond the largest number it is infinite. -/
def ofDecimal (negative : Bool) (d : Decimal) : Floating :=
  match Binary.nearest? d with
  | some size => finite negative size
  | none => infinite negative

/-- Whether a value is zero, with either sign. -/
def isZero : Floating → Bool
  | finite _ size => size.significand == 0
  | infinite _ => false
  | undefined => false

/-- The text of a value, with the words for the values beyond all numbers. -/
def text (infinity notANumber : String) : Floating → String
  | finite negative size => String.ofList ((if negative then ['-'] else []) ++ size.text)
  | infinite negative => (if negative then "-" else "") ++ infinity
  | undefined => notANumber

end Floating

end Scoreboard
