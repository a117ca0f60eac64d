import StartNodes.Json.Shown
import StartNodes.NodeName

/-!
What may stand where a node is named and nothing is checked: any value. A whole number names the node of that id; a truth
value and a double without a fractional part are other spellings of such a number. Items are told apart by what they name,
not by how they spell it. Nodes may be called by items in place of ids; then a text, null or any other double is a name,
too, but no list and no object.
-/

namespace StartNodes

/-- A value in the place of a node. -/
structure Item where
  value : Json

namespace Item

def ofId (id : NodeId) : Item := ⟨.int id⟩

/-- The node that an item names. -/
def node? (item : Item) : Option NodeId :=
  match item.value with
  | .int n => some n
  | .bool b => some (if b then 1 else 0)
  | .float x => x.toInt?
  | _ => none

/-- Whether an item is a number; a truth value counts as one. -/
def isNumber (item : Item) : Bool :=
  match item.value with
  | .int _ => true
  | .bool _ => true
  | .float _ => true
  | _ => false

/-- The number that an item is, as a quotient; the denominator of an infinite number is zero. -/
def quotient? (item : Item) : Option (Int × Nat) :=
  match item.value with
  | .int n => some (n, 1)
  | .bool b => some (if b then 1 else 0, 1)
  | .float (.finite negative mantissa exponent) =>
      let (num, den) := Decimal.Binary64.scale 2 mantissa exponent
      some (if negative then -num else num, den)
  | .float (.infinite negative) => some (if negative then -1 else 1, 0)
  | _ => none

/-- Whether an item may stand before another in the order of numbers, in which other items may stand anywhere. -/
def precedes (a b : Item) : Bool :=
  match a.quotient?, b.quotient? with
  | some (m, c), some (n, d) => m * d ≤ n * c
  | _, _ => true

/-- Whether an item can be looked up in a table. -/
def isKey (item : Item) : Bool :=
  match item.value with
  | .arr _ => false
  | .obj _ => false
  | _ => true

/-- Whether two items that name no node are the same. -/
def sameValue : Json → Json → Bool
  | .null, .null => true
  | .str s, .str t => s == t
  | .float x, .float y => x == y
  | _, _ => false

/-- Whether two items are the same key of a table. -/
def same (a b : Item) : Bool :=
  match a.node?, b.node? with
  | some m, some n => m == n
  | none, none => sameValue a.value b.value
  | _, _ => false

instance : BEq Item := ⟨same⟩

instance : NodeName Item where
  ofId := ofId
  letters item := item.value.named.toList
  isWritable item := item.value.isWritable
  toJson := value
  ofJson? v := if isKey ⟨v⟩ then some ⟨v⟩ else none

def root : Item := NodeName.root

@[simp]
theorem node?_ofId (id : NodeId) : (ofId id).node? = some id := rfl

@[simp]
theorem ofId_beq_ofId (a b : NodeId) : (ofId a == ofId b) = (a == b) := rfl

@[simp]
theorem spelling_ofId (id : NodeId) : NodeName.spelling (ofId id) = Decimal.ofInt id := by
  simp [NodeName.spelling, NodeName.letters, ofId, Json.named, Json.shown, Json.shownChars, Decimal.ofInt]

end Item

end StartNodes
