import StartNodes.Decimal.Shortest

/-!
JSON values. Whole numbers are exact and of any size, all other numbers are doubles. Strings are texts, in which half of a
surrogate pair may stand alone. An object lists its members in the order of their first mention and holds each key once.
-/

namespace StartNodes

open Decimal

inductive Json where
  | null
  | bool (b : Bool)
  | int (n : Int)
  | float (x : Binary64)
  | str (s : String)
  | arr (items : List Json)
  | obj (members : List (String × Json))
  deriving Inhabited

namespace Json

def ofInts (ns : List Int) : Json := .arr (ns.map .int)

def ofStrings (ss : List String) : Json := .arr (ss.map .str)

/-- The members of an object after a key has been given a value; a key that is there keeps its place. -/
def putMember (members : List (String × Json)) (key : String) (value : Json) : List (String × Json) :=
  if members.any fun m => m.1 == key then
    members.map fun m => if m.1 == key then (key, value) else m
  else members ++ [(key, value)]

/-- The value of a key among the members of an object. -/
def member? (members : List (String × Json)) (key : String) : Option Json :=
  members.lookup key

/-- The value of a key, for an object that has it. -/
def get? (value : Json) (key : String) : Option Json :=
  match value with
  | .obj members => member? members key
  | _ => none

/-- The text that a value holds, if it is a string. -/
def string? : Json → Option String
  | .str s => some s
  | _ => none

def items? : Json → Option (List Json)
  | .arr items => some items
  | _ => none

def int? : Json → Option Int
  | .int n => some n
  | _ => none

end Json

end StartNodes
