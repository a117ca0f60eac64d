import StartNodes.Decimal.Binary64

/-!
The shortest decimal that reads back as a given double. The reals that round to a double form an
interval around it, with its ends if and only if the mantissa is even. For one digit, two digits, and so
on up to seventeen, the value's two neighbours on the decimal grid of that many digits are tested; the
first grid with a hit wins, and of two hits the nearer one, or the even one if both are equally near.
-/

namespace StartNodes.Decimal

/-- A decimal significand: the digits, as a whole number, times ten to the exponent. -/
structure Significand where
  digits : Nat
  exponent : Int
  deriving DecidableEq, Repr

/-- The reals that round to a double, four times over and in units of its last place: the double itself,
the two ends, and whether the ends belong. -/
structure RoundingInterval where
  value : Nat
  low : Nat
  high : Nat
  closed : Bool
  deriving DecidableEq, Repr

/-- The interval of a positive double. Below a power of two the doubles lie twice as dense. -/
def roundingInterval (mantissa : Nat) (exponent : Int) : RoundingInterval :=
  let narrow := mantissa == Binary64.leastFull && exponent != Binary64.minExponent
  { value := 4 * mantissa
    low := 4 * mantissa - (if narrow then 1 else 2)
    high := 4 * mantissa + 2
    closed := mantissa % 2 == 0 }

/-- The exponent of the greatest power of ten that is at most a positive quotient. -/
def log10Div (num den : Nat) : Int :=
  if den ≤ num then ((natText (num / den)).length : Int) - 1
  else 0 - (natText ((den + num - 1) / num - 1)).length

/-- The neighbour of a double on a decimal grid that lies in the double's interval, if one does. The grid
is the multiples of ten to `grid`; the interval counts quarters of two to `exponent`. -/
def onGrid? (interval : RoundingInterval) (exponent grid : Int) : Option Nat :=
  let up := Nat.pow 2 (exponent - 2).toNat * Nat.pow 10 (-grid).toNat
  let unit := Nat.pow 2 (2 - exponent).toNat * Nat.pow 10 grid.toNat
  let value := interval.value * up
  let inside (d : Nat) : Bool :=
    if interval.closed then interval.low * up ≤ d * unit && d * unit ≤ interval.high * up
    else interval.low * up < d * unit && d * unit < interval.high * up
  let below := value / unit
  match inside below, inside (below + 1) with
  | true, true => some (roundDiv value unit)
  | true, false => some below
  | false, true => some (below + 1)
  | false, false => none

/-- A significand without zeros at the end of its digits; `fuel` bounds their number. -/
def Significand.trim : Nat → Significand → Significand
  | 0, s => s
  | fuel + 1, s =>
      if s.digits % 10 = 0 then trim fuel ⟨s.digits / 10, s.exponent + 1⟩ else s

/-- The greatest number of digits that any double needs. -/
def maxShortestDigits : Nat := 17

/-- The shortest decimal that reads back as a positive double. -/
def shortest (mantissa : Nat) (exponent : Int) : Significand :=
  let interval := roundingInterval mantissa exponent
  let (num, den) := Binary64.scale 2 mantissa exponent
  let order := log10Div num den
  let found := (List.range maxShortestDigits).findSome? fun n =>
    let grid := order - (n : Nat)
    (onGrid? interval exponent grid).map fun digits => Significand.trim (n + 1) ⟨digits, grid⟩
  found.getD ⟨0, 0⟩

/-- How a decimal significand is laid out as text: the exponents of its first digit from which to which it is
written positionally, and the least number of digits of a written exponent. -/
structure FloatLayout where
  leastPositional : Int
  firstScientific : Int
  exponentDigits : Nat

/-- Doubles are written positionally from 0.0001 up to, but not including, ten to the sixteenth; a written
exponent has a sign and at least two digits. -/
def FloatLayout.standard : FloatLayout := ⟨-4, 16, 2⟩

/-- The text of a positive significand under a layout. A whole number keeps one zero behind the point. -/
def FloatLayout.text (layout : FloatLayout) (s : Significand) : List Char :=
  let digits := natText s.digits
  let point := digits.length + s.exponent
  let lead := point - 1
  if lead < layout.leastPositional || layout.firstScientific ≤ lead then
    let exponent := natText lead.natAbs
    let tail := match digits with
      | [] => []
      | [d] => [d]
      | d :: rest => d :: '.' :: rest
    tail ++ 'e' :: (if lead < 0 then '-' else '+')
      :: (List.replicate (layout.exponentDigits - exponent.length) '0' ++ exponent)
  else if point ≤ 0 then
    '0' :: '.' :: (List.replicate (-point).toNat '0' ++ digits)
  else if digits.length ≤ point.toNat then
    digits ++ List.replicate (point.toNat - digits.length) '0' ++ ['.', '0']
  else
    digits.take point.toNat ++ '.' :: digits.drop point.toNat

/-- The words that a text uses for the doubles that have no digits. -/
structure FloatWords where
  nan : String
  infinity : String

/-- The text of a double: the shortest one that reads back as it. -/
def Binary64.text (words : FloatWords) : Binary64 → List Char
  | .nan => words.nan.toList
  | .infinite negative => (if negative then ['-'] else []) ++ words.infinity.toList
  | .finite negative mantissa exponent =>
      (if negative then ['-'] else []) ++
        if mantissa = 0 then ['0', '.', '0'] else FloatLayout.standard.text (shortest mantissa exponent)

/-- A double as messages and settings show it. -/
def Binary64.shown (x : Binary64) : String :=
  String.ofList (x.text ⟨"nan", "inf"⟩)

end StartNodes.Decimal
