import StartNodes.Graph.Search
import StartNodes.Path

/-!
A directory of entities: one tree for each hierarchy, with the root and the recycle bin to begin with. Edits
add, move, trash and remove nodes of one tree; an edit that is refused changes nothing. Each edit is reported when it has
been made, or refused with a message, and in either text the names of nodes must be short enough to be written:
`editAndReport`. No other limit is put on names here; the texts of paths have them in full, and of what is logged elsewhere
nothing is said. `ι` is the type of the nodes' names; a directory whose nodes are called by their ids is a
`Directory NodeId`.
-/

namespace StartNodes

/-- One graph for each hierarchy. -/
structure Directory (ι : Type) where
  content : Graph ι
  media : Graph ι

namespace Directory

variable {ι : Type}

def tree (d : Directory ι) : Hierarchy → Graph ι
  | .content => d.content
  | .media => d.media

/-- The directory with another tree for a hierarchy. -/
def setTree (d : Directory ι) : Hierarchy → Graph ι → Directory ι
  | .content, g => { d with content := g }
  | .media, g => { d with media := g }

/-- The directory with its names written in another way. -/
def map {κ : Type} (f : ι → κ) (d : Directory ι) : Directory κ :=
  ⟨d.content.map f, d.media.map f⟩

@[simp]
theorem tree_setTree (d : Directory ι) (kind : Hierarchy) (g : Graph ι) : (d.setTree kind g).tree kind = g := by
  cases kind <;> rfl

theorem tree_setTree_of_ne {a b : Hierarchy} (h : a ≠ b) (d : Directory ι) (g : Graph ι) :
    (d.setTree a g).tree b = d.tree b := by
  cases a <;> cases b <;> simp_all [setTree, tree]

theorem setTree_tree (d : Directory ι) (kind : Hierarchy) : d.setTree kind (d.tree kind) = d := by
  cases kind <;> rfl

@[simp]
theorem tree_map {κ : Type} (f : ι → κ) (d : Directory ι) (kind : Hierarchy) :
    (d.map f).tree kind = (d.tree kind).map f := by
  cases kind <;> rfl

end Directory

inductive Edit (ι : Type) where
  | add (id parent : ι)
  | move (id parent : ι)
  /-- Moves a node into the recycle bin. -/
  | trash (id : ι)
  /-- Deletes a node and everything below it; an unknown node is no error. -/
  | remove (id : ι)
  deriving DecidableEq, Repr

inductive EditError (ι : Type) where
  | reservedId (kind : Hierarchy) (id : ι)
  | alreadyThere (kind : Hierarchy) (id : ι)
  | unknownParent (kind : Hierarchy) (parent : ι)
  | unknownNode (kind : Hierarchy) (id : ι)
  | reservedMove (id : ι)
  | reservedRemoval (id : ι)
  | belowItself (id : ι)
  /-- The node to be moved has no parent to be detached from. -/
  | noParent (id : ι)
  deriving DecidableEq, Repr

namespace EditError

open NodeName

def message {ι : Type} [NodeName ι] : EditError ι → String
  | .reservedId kind id => s!"Node id {spelling id} is reserved in the {kind.name} tree."
  | .alreadyThere kind id => s!"Node {spelling id} already exists in the {kind.name} tree."
  | .unknownParent kind parent => s!"Parent {spelling parent} does not exist in the {kind.name} tree."
  | .unknownNode kind id => s!"Node {spelling id} does not exist in the {kind.name} tree."
  | .reservedMove id => s!"Node {spelling id} is reserved and cannot be moved."
  | .reservedRemoval id => s!"Node {spelling id} is reserved and cannot be removed."
  | .belowItself id => s!"Cannot move node {spelling id} below itself."
  | .noParent _ => ""

/-- The refusal with its names written in another way. -/
def map {ι κ : Type} (f : ι → κ) : EditError ι → EditError κ
  | .reservedId kind id => .reservedId kind (f id)
  | .alreadyThere kind id => .alreadyThere kind (f id)
  | .unknownParent kind parent => .unknownParent kind (f parent)
  | .unknownNode kind id => .unknownNode kind (f id)
  | .reservedMove id => .reservedMove (f id)
  | .reservedRemoval id => .reservedRemoval (f id)
  | .belowItself id => .belowItself (f id)
  | .noParent id => .noParent (f id)

/-- The nodes that the message names. -/
def named {ι : Type} : EditError ι → List ι
  | .reservedId _ id => [id]
  | .alreadyThere _ id => [id]
  | .unknownParent _ parent => [parent]
  | .unknownNode _ id => [id]
  | .reservedMove id => [id]
  | .reservedRemoval id => [id]
  | .belowItself id => [id]
  | .noParent _ => []

end EditError

/-- How an edit fails. -/
inductive EditFailure (ι : Type) where
  | refused (e : EditError ι)
  /-- The text that would report or refuse the edit cannot be written. -/
  | unwritable (e : Decimal.WritingError)
  deriving DecidableEq, Repr

namespace EditFailure

def message {ι : Type} [NodeName ι] : EditFailure ι → String
  | .refused e => e.message
  | .unwritable e => e.message

/-- The failure with its names written in another way. -/
def map {ι κ : Type} (f : ι → κ) : EditFailure ι → EditFailure κ
  | .refused e => .refused (e.map f)
  | .unwritable e => .unwritable e

end EditFailure

variable {ι : Type} [BEq ι] [NodeName ι]

namespace Graph

def seed (kind : Hierarchy) : Graph ι :=
  (({} : Graph ι).addNode NodeName.root).addEdge NodeName.root (NodeName.ofId kind.binId)

/-- Why a new node cannot have an id, whatever its parent. -/
def newRefusal? (kind : Hierarchy) (g : Graph ι) (id : ι) : Option (EditError ι) :=
  if (NodeName.reserved kind).contains id then some (.reservedId kind id)
  else if g.hasNode id then some (.alreadyThere kind id)
  else none

def add (kind : Hierarchy) (g : Graph ι) (id parent : ι) : Except (EditError ι) Unit × Graph ι :=
  match g.newRefusal? kind id with
  | some e => (.error e, g)
  | none => if !g.hasNode parent then (.error (.unknownParent kind parent), g) else (.ok (), g.addEdge parent id)

/-- Moves a node, with everything below it, under another parent. Of several parents it leaves the first. -/
def move (kind : Hierarchy) (g : Graph ι) (id parent : ι) : Except (EditError ι) Unit × Graph ι :=
  if (NodeName.reserved kind).contains id then (.error (.reservedMove id), g)
  else if !g.hasNode id then (.error (.unknownNode kind id), g)
  else if !g.hasNode parent then (.error (.unknownParent kind parent), g)
  else if (g.subtree id).contains parent then (.error (.belowItself id), g)
  else
    match g.parents id with
    | [] => (.error (.noParent id), g)
    | old :: _ =>
        let g := g.removeEdge old id
        (.ok (), g.addEdge parent id)

/-- Removes a node and everything below it. -/
def remove (kind : Hierarchy) (g : Graph ι) (id : ι) : Except (EditError ι) Unit × Graph ι :=
  if (NodeName.reserved kind).contains id then (.error (.reservedRemoval id), g)
  else if !g.hasNode id then (.ok (), g)
  else (.ok (), g.removeNodes (g.subtree id))

/-- Applies an edit to the tree of a hierarchy; gives the tree afterwards, also when the edit is refused. -/
def edit (kind : Hierarchy) (g : Graph ι) : Edit ι → Except (EditError ι) Unit × Graph ι
  | .add id parent => g.add kind id parent
  | .move id parent => g.move kind id parent
  | .trash id => g.move kind id (NodeName.ofId kind.binId)
  | .remove id => g.remove kind id

/-- The nodes that the report of an edit names; a node that is moved is reported with the parent that it leaves, and the
removal of an unknown node is not reported. -/
def reported (kind : Hierarchy) (g : Graph ι) : Edit ι → List ι
  | .add id parent => [id, parent]
  | .move id parent => id :: (g.parents id).take 1 ++ [parent]
  | .trash id => id :: (g.parents id).take 1 ++ [NodeName.ofId kind.binId]
  | .remove id => if g.hasNode id then [id] else []

/-- Reports how an edit of a graph has ended. -/
def report (kind : Hierarchy) (g : Graph ι) (e : Edit ι) : Except (EditError ι) Unit → Except (EditFailure ι) Unit
  | .ok () => if (g.reported kind e).all NodeName.isWritable then .ok () else .error (.unwritable .tooLong)
  | .error err => .error (if err.named.all NodeName.isWritable then .refused err else .unwritable .tooLong)

end Graph

namespace Directory

def seeded : Directory ι := ⟨Graph.seed .content, Graph.seed .media⟩

/-- Applies an edit to one hierarchy; gives the directory afterwards, also when the edit is refused. -/
def edit (d : Directory ι) (kind : Hierarchy) (e : Edit ι) : Except (EditError ι) Unit × Directory ι :=
  let (outcome, g) := (d.tree kind).edit kind e
  (outcome, d.setTree kind g)

/-- Applies an edit to one hierarchy and reports it; gives the directory afterwards. The report comes last: where it cannot
be written, the edit fails and has been made all the same. -/
def editAndReport (d : Directory ι) (kind : Hierarchy) (e : Edit ι) : Except (EditFailure ι) Unit × Directory ι :=
  let edited := d.edit kind e
  ((d.tree kind).report kind e edited.1, edited.2)

/-- The path of a node from the root, or `none` for a node that is not there. -/
def path? (d : Directory ι) (kind : Hierarchy) (id : ι) : Except (Graph.SearchError ι) (Option String) :=
  let g := d.tree kind
  if g.hasNode id then (g.shortestPath NodeName.root id).map fun ids => some (Path.join ids) else .ok none

/-- The paths of those of the nodes that are there, in the order of their first mention. -/
def paths (d : Directory ι) (kind : Hierarchy) : List ι → Except (Graph.SearchError ι) (List (ι × String))
  | [] => .ok []
  | id :: ids =>
      match d.path? kind id with
      | .error e => .error e
      | .ok path =>
          (d.paths kind ids).map fun others =>
            match path with
            | none => others
            | some path => (id, path) :: others.filter fun other => other.1 != id

end Directory

end StartNodes
