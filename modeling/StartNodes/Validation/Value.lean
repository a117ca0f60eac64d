import StartNodes.Validation.NumberText
import StartNodes.Json.Value

/-!
Checking single values. An integer may be given as a whole number, a truth value, a double without a fractional part,
or a text; a double as any number, a truth value or a text. Nothing else is converted. A text that has to be read is
refused if half of a surrogate pair stands alone in it; one that is taken as it stands is not.
-/

namespace StartNodes.Validation

open Decimal Text

/-! ### Values -/

/-- The bound below which a double without a fractional part, sign aside, stands for an integer. -/
def wordBound : Int := 0x8000000000000000

/-- The integer that a double stands for. -/
def integerOfBinary64 (x : Binary64) : Checked Int :=
  match x with
  | .nan => .fail .notFinite
  | .infinite _ => .fail .notFinite
  | .finite _ _ _ =>
      match x.toInt? with
      | none => .fail .fractional
      | some n => if -wordBound < n ∧ n < wordBound then .ok n else .fail .integerSize

def integer : Json → Checked Int
  | .int n => .ok n
  | .bool b => .ok (if b then 1 else 0)
  | .float x => integerOfBinary64 x
  | .str s => if hasHalf s then .fail .notUnicode else integerOfText s
  | _ => .fail .notInteger

def optionalInteger : Json → Checked (Option Int)
  | .null => .ok none
  | value => (integer value).map some

def string : Json → Checked String
  | .str s => .ok s
  | _ => .fail .notString

def number : Json → Checked Binary64
  | .float x => .ok x
  | .int n =>
      match Binary64.ofInt n with
      | .infinite _ => .fail .notNumber
      | x => .ok x
  | .bool b => .ok (Binary64.ofInt (if b then 1 else 0))
  | .str s => if hasHalf s then .fail .notUnicode else numberOfText s
  | _ => .fail .notNumber

def list {α : Type} (origin : Origin) (item : Json → Checked α) : Json → Checked (List α)
  | .arr items => Checked.items item items
  | _ => .fail (.notList origin)

/-! ### Records -/

def required {α : Type} (members : List (String × Json)) (name : String) (check : Json → Checked α) :
    Checked α :=
  Checked.under
    (match Json.member? members name with
      | some value => check value
      | none => .fail .missing)
    (.field name)

/-- A field of a record that has a default. -/
def optional {α : Type} (members : List (String × Json)) (name : String) (absent : α)
    (check : Json → Checked α) : Checked α :=
  match Json.member? members name with
  | some value => (check value).under (.field name)
  | none => .ok absent

/-- A record: an object whose fields are checked, and whose other members are ignored. -/
def record {α : Type} (origin : Origin) (name : String) (fields : List (String × Json) → Checked α) :
    Json → Checked α
  | .obj members => fields members
  | _ => .fail (.notRecord origin name)

end StartNodes.Validation
