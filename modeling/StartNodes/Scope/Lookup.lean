import StartNodes.Directory.Trees
import StartNodes.Scope.Combine

/-!
Where the paths of nodes come from: the trees of a directory, or a fixed table. A source can fail, and each
question that it is asked is recorded. It is asked for nodes by their ids or for whatever stands in their place.
-/

namespace StartNodes

/-- Why a source of paths gives no answer. -/
inductive LookupError where
  /-- A fixed source that is out of order. -/
  | outOfOrder (text : String)
  /-- A node is there but has no path from the root. -/
  | search (e : Graph.SearchError NodeId)
  /-- The same of a node that is asked for by an item. -/
  | unreachable (spelling : String)
  /-- Something is asked for that cannot be looked up in a table. -/
  | noKey
  deriving DecidableEq, Repr

def LookupError.message : LookupError → String
  | .outOfOrder text => text
  | .search e => e.message
  | .unreachable spelling => s!"No path between {rootId} and {spelling}."
  | .noKey => ""

/-- The failure of a search for the path of an item. The item that it is asked for is there. -/
def LookupError.ofItem : Graph.SearchError Item → LookupError
  | .missingSource _ => .search (.missingSource rootId)
  | .missingTarget target => .unreachable (NodeName.spelling target)
  | .noPath _ target => .unreachable (NodeName.spelling target)

/-- A fixed table of paths, the same in every hierarchy. -/
structure FixedTable where
  rows : PathTable Item
  /-- Gives the whole table, whatever is asked. -/
  answersAll : Bool := false
  /-- Fails with a text, whatever is asked. -/
  failure : Option String := none

/-- A source of paths. -/
inductive PathSource where
  | trees (t : Trees)
  | fixed (t : FixedTable)

namespace FixedTable

/-- The answer of a fixed table: the rows of the items that it lists, in the order asked. -/
def paths (t : FixedTable) (items : List Item) : Except LookupError (PathTable Item) :=
  match t.failure with
  | some text => .error (.outOfOrder text)
  | none =>
      if t.answersAll then .ok t.rows
      else if !items.all Item.isKey then .error .noKey
      else .ok (items.eraseDups.filterMap fun item => (t.rows.lookup item).map fun path => (item, path))

end FixedTable

namespace Directory

/-- The path of the node that an item names, if it names one that is there. -/
def pathOf? (d : Directory Item) (kind : Hierarchy) (item : Item) : Except LookupError (Option String) :=
  (d.path? kind item).mapError .ofItem

/-- The paths of items that name nodes of a tree, added to a table. Of several items for one node the first stays, and
the path of the last counts. -/
def searchFrom (d : Directory Item) (kind : Hierarchy) (table : PathTable Item) :
    List Item → Except LookupError (PathTable Item)
  | [] => .ok table
  | item :: items =>
      match d.pathOf? kind item with
      | .error e => .error e
      | .ok none => searchFrom d kind table items
      | .ok (some path) => searchFrom d kind (table.put item path) items

end Directory

namespace PathSource

/-- The paths of those of the items that the source knows. -/
def lookUp (source : PathSource) (kind : Hierarchy) (items : List Item) : Except LookupError (PathTable Item) :=
  match source with
  | .trees t => t.items.searchFrom kind [] items
  | .fixed t => t.paths items

/-- The rows of a table that are about nodes named by ids. -/
def idRows (table : PathTable Item) : PathTable NodeId :=
  table.filterMap fun row => row.1.node?.map fun id => (id, row.2)

/-- The paths of those of the nodes that the source knows. -/
def paths (source : PathSource) (kind : Hierarchy) (ids : List NodeId) : Except LookupError (PathTable NodeId) :=
  match source with
  | .trees (.plain d) => (d.paths kind ids).mapError .search
  | source => (source.lookUp kind (ids.map Item.ofId)).map idRows

end PathSource

namespace Scope

variable {ι : Type} [BEq ι]

/-- The questions that combining start nodes asks a source: one about all declared nodes, or none. -/
def questions (groupIds userIds : List ι) : List (List ι) :=
  let ids := declared groupIds userIds
  if ids.isEmpty then [] else [ids]

/-- The combined start nodes, with their paths taken from a source; `root` is what names the root. -/
def combineFrom (root : ι) (paths : List ι → Except LookupError (PathTable ι)) (kind : Hierarchy)
    (groupIds userIds : List ι) : Except LookupError (List ι) :=
  match questions groupIds userIds with
  | [] => .ok (combine kind (PathTable.pathFrom? [] root) groupIds userIds)
  | ids :: _ => (paths ids).map fun table => combine kind (table.pathFrom? root) groupIds userIds

/-- The combined start nodes of ids that a source is asked for. -/
def combineIds (source : PathSource) (kind : Hierarchy) (groupIds userIds : List NodeId) :
    Except LookupError (List NodeId) :=
  combineFrom rootId (source.paths kind) kind groupIds userIds

/-- The combined start nodes of items that a source is asked for. -/
def combineItems (source : PathSource) (kind : Hierarchy) (groups own : List Item) : Except LookupError (List Item) :=
  combineFrom Item.root (source.lookUp kind) kind groups own

end Scope

end StartNodes
