import StartNodes.Hierarchy
import StartNodes.Decimal.Numeral
import StartNodes.Json.Value

/-!
What nodes are called. Graphs, their edits and their searches do not depend on it, as long as every id is a name and two
names can be compared; `ι` is the type of names. A name is spelled in paths and messages, and a snapshot holds it as a
value. The plainest names are the ids themselves.
-/

namespace StartNodes

/-- A type of names for nodes. -/
class NodeName (ι : Type) where
  /-- The name that an id is. -/
  ofId : NodeId → ι
  /-- The characters by which a name is spelled. -/
  letters : ι → List Char
  /-- Whether a name is short enough to be written in a text. -/
  isWritable : ι → Bool
  /-- The value that a name is in a snapshot. -/
  toJson : ι → Json
  /-- The name that a value is, if it is one. -/
  ofJson? : Json → Option ι

namespace NodeName

variable {ι : Type} [NodeName ι]

/-- How a name is spelled. -/
def spelling (name : ι) : String :=
  String.ofList (letters name)

def root : ι := ofId rootId

/-- The names of the nodes that are there from the start and can be neither moved nor removed. -/
def reserved (kind : Hierarchy) : List ι :=
  kind.reserved.map ofId

instance : NodeName NodeId where
  ofId id := id
  letters := Decimal.intText
  isWritable := Decimal.isWritable
  toJson := .int
  ofJson? := Json.int?

@[simp]
theorem ofId_nodeId (id : NodeId) : (ofId id : NodeId) = id := rfl

@[simp]
theorem spelling_nodeId (id : NodeId) : spelling id = Decimal.ofInt id := rfl

@[simp]
theorem isWritable_nodeId (id : NodeId) : isWritable id = Decimal.isWritable id := rfl

@[simp]
theorem root_nodeId : (root : NodeId) = rootId := rfl

@[simp]
theorem reserved_nodeId (kind : Hierarchy) : (reserved kind : List NodeId) = kind.reserved := rfl

@[simp]
theorem ofJson?_toJson_nodeId (id : NodeId) : (ofJson? (toJson id) : Option NodeId) = some id := rfl

end NodeName

end StartNodes
