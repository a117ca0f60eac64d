import StartNodes.Decimal.Binary64

/-!
Reading decimal fractions: an optional sign, digits with an optional point among, before or behind them,
and an optional exponent. The words for infinity and for an undefined number are read in any case.
-/

namespace StartNodes.Decimal

def digitsValue (ds : List Char) : Nat :=
  ofDigits (ds.map fun c => c.toNat - 48)

/-- The exponent that the rest of a number denotes: nothing, or the letter `e`, an optional sign and
digits. -/
def readExponent? : List Char → Option Int
  | [] => some 0
  | c :: rest =>
      if c == 'e' || c == 'E' then
        let (negative, ds) := splitSign rest
        if ds.isEmpty || !ds.all Char.isDigit then none
        else some (if negative then -(digitsValue ds : Int) else digitsValue ds)
      else none

/-- Reads a decimal fraction without its sign. -/
def readUnsigned? (negative : Bool) (cs : List Char) : Option Fraction :=
  let whole := cs.takeWhile Char.isDigit
  let rest := cs.dropWhile Char.isDigit
  let (part, rest) := match rest with
    | '.' :: rest => (rest.takeWhile Char.isDigit, rest.dropWhile Char.isDigit)
    | rest => ([], rest)
  if whole.isEmpty && part.isEmpty then none
  else (readExponent? rest).map fun exponent =>
    ⟨negative, digitsValue (whole ++ part), exponent - part.length⟩

def readBinary64? (cs : List Char) : Option Binary64 :=
  let (negative, unsigned) := splitSign cs
  let word := String.ofList (unsigned.map Char.toLower)
  if word == "inf" || word == "infinity" then some (.infinite negative)
  else if word == "nan" then some .nan
  else (readUnsigned? negative unsigned).map Binary64.ofFraction

end StartNodes.Decimal
