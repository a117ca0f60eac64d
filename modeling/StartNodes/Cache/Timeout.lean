import StartNodes.Decimal.Shortest

/-!
How long a caller waits for a principal's lock: a number of seconds, or -1 for no limit.
-/

namespace StartNodes

open Decimal

/-- A number of seconds, whole or not, as it was given. -/
inductive LockTimeout where
  | whole (n : Int)
  | seconds (x : Binary64)
  deriving DecidableEq, Repr

namespace LockTimeout

/-- The number as a double, unless it is a whole number greater than every double. -/
def toBinary64? : LockTimeout → Option Binary64
  | .whole n =>
      match Binary64.ofInt n with
      | .infinite _ => none
      | x => some x
  | .seconds x => some x

def shown : LockTimeout → String
  | .whole n => ofInt n
  | .seconds x => x.shown

/-- Whether the number stands for no limit. -/
def isUnlimited : LockTimeout → Bool
  | .whole n => n == -1
  | .seconds x => x.toInt? == some (-1)

def isBelowZero : LockTimeout → Bool
  | .whole n => n < 0
  | .seconds x => x.isBelowZero

/-- Whether the number is a timeout: -1, or not less than zero. -/
def isAllowed (t : LockTimeout) : Bool :=
  !t.isBelowZero || t.isUnlimited

/-- Why no lock can be waited for at all. -/
inductive Fault where
  | notANumber
  | tooLarge
  deriving DecidableEq, Repr

def Fault.message : Fault → String
  | .notANumber => "Invalid value NaN (not a number)"
  | .tooLarge => "timestamp too large to convert to C _PyTime_t"

def nanoseconds : Nat := 1000000000

/-- The least number of nanoseconds that needs more than 63 bits. -/
def clockBound : Nat := 0x8000000000000000

/-- Whether a quotient of seconds is more than a clock of nanoseconds holds. -/
def exceedsClock (num den : Nat) : Bool :=
  clockBound * den ≤ num * nanoseconds

/-- Why no lock can be waited for with a timeout, if there is a reason. -/
def fault? : LockTimeout → Option Fault
  | .whole n => if exceedsClock n.toNat 1 then some .tooLarge else none
  | .seconds .nan => some .notANumber
  | .seconds (.infinite _) => some .tooLarge
  | .seconds (.finite negative mantissa exponent) =>
      let (num, den) := Binary64.scale 2 mantissa exponent
      if !negative && exceedsClock num den then some .tooLarge else none

end LockTimeout

end StartNodes
