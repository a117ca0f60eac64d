import StartNodes.Text.Blank
import StartNodes.Text.Digit
import StartNodes.Text.Quoted

/-!
Whole numbers in decimal. Writing has one form: an optional minus sign and ASCII digits without leading
zeros. Reading is wider: blanks around the number, a plus sign, leading zeros, digits of any script, and
a single underscore between two digits. Numbers with more than 4300 digits are neither read nor written; a sign is no
digit.
-/

namespace StartNodes.Decimal

open Text

/-! ### Writing -/

def natText (n : Nat) : List Char :=
  Nat.toDigits 10 n

/-- The decimal form of an integer, however long it is. Whether it is written is decided apart: `isWritable`. -/
def intText (n : Int) : List Char :=
  if n < 0 then '-' :: natText n.natAbs else natText n.natAbs

def ofInt (n : Int) : String :=
  String.ofList (intText n)

/-- The largest number of digits that is read or written; in reading, leading zeros count. -/
def maxDigits : Nat := 4300

/-- How many digits the decimal form of an integer has. -/
def digitCount (n : Int) : Nat :=
  (natText n.natAbs).length

/-- Whether an integer is short enough to be written. -/
def isWritable (n : Int) : Bool :=
  digitCount n ≤ maxDigits

/-- Why an integer is not written. -/
inductive WritingError where
  /-- The integer has too many digits. -/
  | tooLong
  deriving DecidableEq, Repr

def WritingError.message : WritingError → String
  | .tooLong =>
      s!"Exceeds the limit ({maxDigits} digits) for integer string conversion; " ++
        "use sys.set_int_max_str_digits() to increase the limit"

/-! ### Reading -/

/-- Why a text is not read as an integer. -/
inductive NumeralError where
  /-- The text does not have the form of an integer. -/
  | malformed (text : String)
  /-- The text has too many digits. -/
  | tooLong (digits : Nat)
  deriving DecidableEq, Repr

/-- The largest number of digits in the whole part of a strictly written number. -/
def maxWholeDigits : Nat := 4300

namespace NumeralError

/-- How much of the quoted text a message shows. -/
def shownLength : Nat := 200

def message : NumeralError → String
  | .malformed text =>
      "invalid literal for int() with base 10: " ++ String.ofList ((quoted text).take shownLength)
  | .tooLong digits =>
      s!"Exceeds the limit ({maxDigits} digits) for integer string conversion: value has {digits} digits; " ++
        "use sys.set_int_max_str_digits() to increase the limit"

end NumeralError

/-- The number that a list of digit values stands for, most significant first. -/
def ofDigits (ds : List Nat) : Nat :=
  ds.foldl (fun value d => 10 * value + d) 0

/-- A text without its sign, with `true` for a minus sign. -/
def splitSign : List Char → Bool × List Char
  | '-' :: rest => (true, rest)
  | '+' :: rest => (false, rest)
  | rest => (false, rest)

/-- A character that may stand inside the digits of a number. -/
def inNumber (c : Char) : Bool :=
  isDecimalDigit c || c == '_'

/-- The digits of a number that is written with single underscores between digits, if it is so written. -/
def digitGroups? (run : List Char) : Option (List Char) :=
  let groups := run.splitOn '_'
  if groups.any List.isEmpty then none else some groups.flatten

def readChars (text : List Char) : Except NumeralError Int :=
  let (negative, unsigned) := splitSign (text.dropWhile isBlank)
  let rest := unsigned.dropWhile inNumber
  match digitGroups? (unsigned.takeWhile inNumber) with
  | none => .error (.malformed (String.ofList text))
  | some digits =>
      if digits.length > maxDigits then .error (.tooLong digits.length)
      else if rest.all isBlank then
        let magnitude := ofDigits (digits.filterMap digitValue?)
        .ok (if negative then -(magnitude : Int) else magnitude)
      else .error (.malformed (String.ofList text))

def readInt (text : String) : Except NumeralError Int :=
  readChars text.toList

end StartNodes.Decimal
