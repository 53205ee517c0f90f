/-!
# Decimal numbers

A decimal number is an integer with a power of ten. It is written with a point inside or
next to its digits as long as the point is close to them, and with a power of ten otherwise.
-/

namespace Scoreboard

/-- The number `digits * 10 ^ exponent`. -/
structure Decimal where
  digits : Nat
  exponent : Int
  deriving DecidableEq, Repr, Inhabited

namespace Decimal

/-- The digits of a number. -/
def figures (n : Nat) : List Char := Nat.toDigits 10 n

/-- The power of ten above a number: a number with `n` digits before the point has the
scale `n`. -/
def scale (d : Decimal) : Int := (figures d.digits).length + d.exponent

/-- The number with the zeros at the end of its digits moved into the exponent, as far as
the given number of steps reaches. -/
def stripZeros : Nat → Decimal → Decimal
  | 0, d => d
  | n + 1, d =>
    if d.digits % 10 = 0 then stripZeros n ⟨d.digits / 10, d.exponent + 1⟩ else d

/-- The digits with a point: at least one digit stands on either side of it. -/
def positional (figures : List Char) (scale : Int) : List Char :=
  if scale ≤ 0 then ['0', '.'] ++ List.replicate (-scale).toNat '0' ++ figures
  else if figures.length ≤ scale.toNat then
    figures ++ List.replicate (scale.toNat - figures.length) '0' ++ ['.', '0']
  else figures.take scale.toNat ++ '.' :: figures.drop scale.toNat

/-- A power of ten with its sign and at least two digits. -/
def powerOfTen (exponent : Int) : List Char :=
  let digits := figures exponent.natAbs
  'e' :: (if exponent < 0 then '-' else '+')
    :: (List.replicate (2 - digits.length) '0' ++ digits)

/-- One digit before the point, the others behind it, and a power of ten. -/
def scientific (figures : List Char) (exponent : Int) : List Char :=
  let fraction := figures.drop 1
  figures.take 1 ++ (if fraction.isEmpty then [] else '.' :: fraction) ++ powerOfTen exponent

/-- The text of a number. A first digit from the ten-thousandths to the sixteenth place
before the point is written without a power of ten. -/
def text (d : Decimal) : List Char :=
  let exponent := d.scale - 1
  if -4 ≤ exponent ∧ exponent < 16 then positional (figures d.digits) d.scale
  else scientific (figures d.digits) exponent

end Decimal

end Scoreboard
