import StartNodes.Decimal.Numeral

/-!
Double-precision numbers in exact integer arithmetic. A finite number is a mantissa times a power of
two; the mantissa has at most 53 bits, the exponent is at least -1074, and the mantissa has all 53 bits
unless the exponent is the least one. A decimal fraction becomes the nearest such number, and of two
that are equally near the one with the even mantissa.
-/

namespace StartNodes.Decimal

/-- A double-precision number. -/
inductive Binary64 where
  | nan
  | infinite (negative : Bool)
  /-- The mantissa times two to the exponent. -/
  | finite (negative : Bool) (mantissa : Nat) (exponent : Int)
  deriving DecidableEq, Repr

/-- A decimal fraction: the digits, as a whole number, times ten to the exponent. -/
structure Fraction where
  negative : Bool
  digits : Nat
  exponent : Int
  deriving DecidableEq, Repr

/-- The whole number nearest to a quotient; of two that are equally near, the even one. -/
def roundDiv (num den : Nat) : Nat :=
  let whole := num / den
  let rest := num % den
  if 2 * rest < den then whole
  else if den < 2 * rest then whole + 1
  else if whole % 2 = 0 then whole else whole + 1

namespace Binary64

def minExponent : Int := -1074

def maxExponent : Int := 971

/-- The least mantissa that has all 53 bits. -/
def leastFull : Nat := 0x10000000000000

/-- One more than the greatest mantissa. -/
def mantissaBound : Nat := 0x20000000000000

def zero (negative : Bool) : Binary64 := .finite negative 0 minExponent

/-- The numerator and denominator of a natural number times a power of a base. -/
def scale (base n : Nat) (exponent : Int) : Nat × Nat :=
  (n * Nat.pow base exponent.toNat, Nat.pow base (-exponent).toNat)

/-- The exponent of the greatest power of two that is at most a positive quotient. -/
def log2Div (num den : Nat) : Int :=
  let guess : Int := (num.log2 : Int) - den.log2
  let (scaled, unit) := scale 2 den guess
  if scaled ≤ num * unit then guess else guess - 1

/-- The double nearest to a quotient. -/
def ofRatio (negative : Bool) (num den : Nat) : Binary64 :=
  if num = 0 then zero negative
  else
    let exponent := max minExponent (log2Div num den - 52)
    let (unit, scaled) := scale 2 den exponent
    let mantissa := roundDiv (num * scaled) unit
    let (mantissa, exponent) := if mantissa = mantissaBound then (leastFull, exponent + 1) else (mantissa, exponent)
    if maxExponent < exponent then .infinite negative else .finite negative mantissa exponent

/-- The double nearest to a decimal fraction. A fraction far outside the range of doubles is recognised
by its count of digits, before any power of ten is formed. -/
def ofFraction (x : Fraction) : Binary64 :=
  if x.digits = 0 then zero x.negative
  else
    let order := x.exponent + (natText x.digits).length
    if 400 < order then .infinite x.negative
    else if order < -400 then zero x.negative
    else
      let (num, den) := scale 10 x.digits x.exponent
      ofRatio x.negative num den

def ofInt (n : Int) : Binary64 :=
  ofFraction ⟨n < 0, n.natAbs, 0⟩

/-- The integer that a double is equal to, if it is equal to one. -/
def toInt? : Binary64 → Option Int
  | .finite negative mantissa exponent =>
      let (num, den) := scale 2 mantissa exponent
      if num % den = 0 then
        let magnitude : Int := (num / den : Nat)
        some (if negative then -magnitude else magnitude)
      else none
  | _ => none

def isBelowZero : Binary64 → Bool
  | .nan => false
  | .infinite negative => negative
  | .finite negative mantissa _ => negative && mantissa != 0

end Binary64

end StartNodes.Decimal
