/-!
The two hierarchies in which a principal's scope is resolved. Each is a tree with the same root and with
a recycle bin of its own, whose nodes grant nothing.
-/

namespace StartNodes

/-- Identifies a node within one hierarchy. -/
abbrev NodeId := Int

/-- The root of every hierarchy. -/
def rootId : NodeId := -1

/-- A tree of nodes with its own start nodes and its own recycle bin. -/
inductive Hierarchy where
  | content
  | media
  deriving DecidableEq, Repr

namespace Hierarchy

/-- The hierarchies, in the order in which snapshots list them. -/
def all : List Hierarchy := [.content, .media]

/-- The recycle bin: a child of the root whose descendants count as deleted. -/
def binId : Hierarchy → NodeId
  | .content => -20
  | .media => -21

def name : Hierarchy → String
  | .content => "CONTENT"
  | .media => "MEDIA"

/-- The hierarchy of a name; names are compared letter by letter, case included. -/
def ofName? (s : String) : Option Hierarchy :=
  all.find? fun kind => kind.name == s

/-- The nodes of a hierarchy that are there from the start and can be neither moved nor removed. -/
def reserved (kind : Hierarchy) : List NodeId := [rootId, kind.binId]

theorem mem_all (kind : Hierarchy) : kind ∈ all := by
  cases kind <;> decide

theorem ofName?_name (kind : Hierarchy) : ofName? kind.name = some kind := by
  cases kind <;> decide

end Hierarchy

end StartNodes
