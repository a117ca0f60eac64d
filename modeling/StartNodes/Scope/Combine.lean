import StartNodes.Path

/-!
The scope of a principal: the start nodes that its groups declare and its own start nodes, combined into
a set of nodes none of which lies under another. Of the groups' nodes the topmost count, of the principal's own
the deepest, and each of its own replaces every group node above or below it. A node that has no path, or whose
path lies under the recycle bin, contributes nothing.

Nothing here depends on how nodes are named, as long as two names can be compared: `ι` is the type of names.
-/

namespace StartNodes

variable {ι : Type} [BEq ι]

/-- Paths by node. -/
abbrev PathTable (ι : Type) := List (ι × String)

namespace PathTable

/-- The table after a node has been given a path; a node that is there keeps its name and its place. -/
def put (table : PathTable ι) (id : ι) (path : String) : PathTable ι :=
  if table.any fun row => row.1 == id then
    table.map fun row => if row.1 == id then (row.1, path) else row
  else table ++ [(id, path)]

/-- The path of a node. The root has its path whether or not the table lists it. -/
def pathFrom? (table : PathTable ι) (root id : ι) : Option String :=
  if id == root then some Path.root else table.lookup id

/-- The path of a node that is named by its id. -/
def path? (table : PathTable NodeId) (id : NodeId) : Option String :=
  table.pathFrom? rootId id

end PathTable

namespace Scope

/-- The distinct nodes that are declared, the groups' before the principal's own. -/
def declared (groupIds userIds : List ι) : List ι :=
  (groupIds ++ userIds).eraseDups

structure Placed (ι : Type) where
  id : ι
  path : String
  deriving DecidableEq, Repr

def Placed.isUnder (a b : Placed ι) : Bool :=
  Path.isUnder a.path b.path

/-- The distinct nodes that have a path outside the recycle bin, with their paths. -/
def valid (path? : ι → Option String) (bin : String) (ids : List ι) : List (Placed ι) :=
  ids.eraseDups.filterMap fun id =>
    (path? id).bind fun path => if Path.isUnder path bin then none else some ⟨id, path⟩

/-- Takes a node up among those that are kept, unless it yields to one of them; those that yield to it go. -/
def keep (yields : Placed ι → Placed ι → Bool) (kept : List (Placed ι)) (n : Placed ι) : List (Placed ι) :=
  if kept.any (yields n) then kept else (kept.filter fun k => !yields k n) ++ [n]

/-- The nodes that lie under no other, in order. -/
def topmost (nodes : List (Placed ι)) : List (Placed ι) :=
  nodes.foldl (keep Placed.isUnder) []

/-- The nodes under which no other lies, in order. -/
def deepest (nodes : List (Placed ι)) : List (Placed ι) :=
  nodes.foldl (keep fun a b => b.isUnder a) []

/-- Takes a node up in place of itself and of every node above or below it. -/
def replace (kept : List (Placed ι)) (n : Placed ι) : List (Placed ι) :=
  (kept.filter fun k => k.id != n.id && !n.isUnder k && !k.isUnder n) ++ [n]

/-- The combined start nodes, from the paths of the declared nodes. -/
def combine (kind : Hierarchy) (path? : ι → Option String) (groupIds userIds : List ι) : List ι :=
  let bin := Path.bin kind
  let groups := topmost (valid path? bin groupIds)
  let own := deepest (valid path? bin userIds)
  (own.foldl replace groups).map Placed.id

/-- The paths of start nodes, in their order; those that have none are left out. -/
def pathsOf (path? : ι → Option String) (ids : List ι) : List String :=
  ids.filterMap path?

end Scope

end StartNodes
