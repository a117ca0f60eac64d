import StartNodes.Validation.Fault
import StartNodes.Decimal.Reading

/-!
Texts as numbers. The text of an integer is read strictly or else once more after cleaning: blanks at both ends, a plus
sign, zeros in front, a point with nothing but zeros behind it, and underscores go. A minus sign may stand behind the
zeros in front. The text of a double is read without the blanks at its ends or else without its underscores.
-/

namespace StartNodes.Validation

open Decimal Text

/-- A text without its underscores, where it has some: none at its ends, and no two in a row. -/
def withoutUnderscores? (cs : List Char) : Option (List Char) :=
  let groups := cs.splitOn '_'
  if groups.length < 2 || groups.any List.isEmpty then none else some groups.flatten

/-! ### Integers -/

/-- A minus sign at the start of a text, and what follows. -/
def splitMinus : List Char → List Char × List Char
  | '-' :: rest => (['-'], rest)
  | rest => ([], rest)

/-- Whether the whole number at the start of a text, which does not start with zero, is too long to be read; its sign does
not count. -/
def startsTooLong (cs : List Char) : Bool :=
  let digits := (splitMinus cs).2.takeWhile Char.isDigit
  digits.head? != some '0' && maxWholeDigits < digits.length

/-- Reads an integer in its strict form: a minus sign or none, and digits without a zero in front of others. -/
def strictInteger? (cs : List Char) : Option Int :=
  let (sign, digits) := splitMinus cs
  if digits.isEmpty || !digits.all Char.isDigit then none
  else if digits.head? == some '0' && digits.length != 1 then none
  else if maxWholeDigits < digits.length then none
  else
    let magnitude : Int := digitsValue digits
    some (if sign.isEmpty then magnitude else -magnitude)

/-- A number without the zeros in front and the underscores among them. The last of these characters stays where
nothing, or a point, follows. -/
def withoutLeadingZeros? (cs : List Char) : Option (List Char) :=
  let zeros := cs.takeWhile fun c => c == '0' || c == '_'
  let rest := cs.drop zeros.length
  match zeros, rest with
  | [], c :: _ => if c.isDigit then some cs else none
  | '0' :: _, [] => some zeros.getLast?.toList
  | '0' :: _, c :: _ =>
      if c == '.' then some (zeros.getLast?.toList ++ rest)
      else if c == '-' || c.isDigit then some rest
      else none
  | _, _ => none

/-- A number without a point that has nothing but zeros behind it. -/
def withoutZeroPart (cs : List Char) : List Char :=
  match cs.dropWhile (· != '.') with
  | _ :: zeros => if !zeros.isEmpty && zeros.all (· == '0') then cs.takeWhile (· != '.') else cs
  | [] => cs

/-- The strict form that the text of an integer is meant as. -/
def cleanedInteger? (cs : List Char) : Option (List Char) :=
  let (sign, rest) := match strip cs with
    | '-' :: rest => (['-'], rest)
    | '+' :: rest => ([], rest)
    | rest => ([], rest)
  (withoutLeadingZeros? rest).map fun rest =>
    let number := withoutZeroPart (sign ++ rest)
    (withoutUnderscores? number).getD number

/-- The integer that a text denotes, if it does not have too many digits behind its sign. -/
def integerOfText (s : String) : Checked Int :=
  let cs := s.toList
  if startsTooLong cs then .fail .integerSize
  else
    match strictInteger? cs with
    | some n => .ok n
    | none =>
        match (cleanedInteger? cs).bind strictInteger? with
        | some n => .ok n
        | none => .fail .integerText

/-! ### Doubles -/

def numberOfText (s : String) : Checked Binary64 :=
  let cs := s.toList
  match readBinary64? (strip cs) with
  | some x => .ok x
  | none =>
      match (withoutUnderscores? cs).bind readBinary64? with
      | some x => .ok x
      | none => .fail .numberText

end StartNodes.Validation
