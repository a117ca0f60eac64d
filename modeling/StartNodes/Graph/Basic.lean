import StartNodes.Json.Value

/-!
Directed graphs with attributes. Nodes and edges keep the order in which they were added, which is the
order in which a search visits them: the children of a node are listed in the order in which the edges to
them were added, its parents likewise.

Nothing here depends on what nodes are called, as long as two names can be compared: `ι` is the type of names. Where
one node has several names, it keeps the one under which it was added, and an edge keeps the two by which it was added.
-/

namespace StartNodes

/-- Named values that a node or an edge carries. -/
abbrev Attributes := List (String × Json)

/-- The attributes after others have been laid over them. -/
def Attributes.merge (old new : Attributes) : Attributes :=
  new.foldl (fun acc m => Json.putMember acc m.1 m.2) old

structure Node (ι : Type) where
  id : ι
  attributes : Attributes := []

/-- An edge from a parent to a child. -/
structure Edge (ι : Type) where
  source : ι
  target : ι
  attributes : Attributes := []

structure Graph (ι : Type) where
  nodes : List (Node ι) := []
  edges : List (Edge ι) := []
  /-- What the graph as a whole carries. -/
  attributes : Json := .obj []

def Node.map {ι κ : Type} (f : ι → κ) (n : Node ι) : Node κ :=
  ⟨f n.id, n.attributes⟩

/-- The edge with the names of its ends written in another way. -/
def Edge.map {ι κ : Type} (f : ι → κ) (e : Edge ι) : Edge κ :=
  ⟨f e.source, f e.target, e.attributes⟩

/-- The graph with its names written in another way. -/
def Graph.map {ι κ : Type} (f : ι → κ) (g : Graph ι) : Graph κ :=
  ⟨g.nodes.map (Node.map f), g.edges.map (Edge.map f), g.attributes⟩

def Graph.nodeIds {ι : Type} (g : Graph ι) : List ι :=
  g.nodes.map Node.id

variable {ι : Type} [BEq ι]

/-- Whether an edge leads from one node to another. -/
def Edge.joins (e : Edge ι) (source target : ι) : Bool :=
  e.source == source && e.target == target

namespace Graph

def hasNode (g : Graph ι) (id : ι) : Bool :=
  g.nodes.any fun n => n.id == id

def children (g : Graph ι) (id : ι) : List ι :=
  (g.edges.filter fun e => e.source == id).map Edge.target

def parents (g : Graph ι) (id : ι) : List ι :=
  (g.edges.filter fun e => e.target == id).map Edge.source

/-- Adds a node; one that is there takes over the attributes. -/
def addNode (g : Graph ι) (id : ι) (attributes : Attributes := []) : Graph ι :=
  if g.hasNode id then
    { g with nodes := g.nodes.map fun n =>
        if n.id == id then { n with attributes := n.attributes.merge attributes } else n }
  else { g with nodes := g.nodes ++ [⟨id, attributes⟩] }

/-- Adds an edge, and those of its ends that are not there; an edge that is there takes over the
attributes. -/
def addEdge (g : Graph ι) (source target : ι) (attributes : Attributes := []) : Graph ι :=
  let g := (g.addNode source).addNode target
  if g.edges.any fun e => e.joins source target then
    { g with edges := g.edges.map fun e =>
        if e.joins source target then { e with attributes := e.attributes.merge attributes } else e }
  else { g with edges := g.edges ++ [⟨source, target, attributes⟩] }

def removeEdge (g : Graph ι) (source target : ι) : Graph ι :=
  { g with edges := g.edges.filter fun e => !e.joins source target }

/-- Removes nodes, with every edge at one of them. -/
def removeNodes (g : Graph ι) (ids : List ι) : Graph ι :=
  { g with
    nodes := g.nodes.filter fun n => !ids.contains n.id
    edges := g.edges.filter fun e => !ids.contains e.source && !ids.contains e.target }

/-- The nodes met by going on from `frontier` for `fuel` rounds, where `seen` have been met before. -/
def meet (g : Graph ι) : Nat → List ι → List ι → List ι
  | 0, _, seen => seen
  | fuel + 1, frontier, seen =>
      let fresh := ((frontier.flatMap g.children).filter fun id => !seen.contains id).eraseDups
      if fresh.isEmpty then seen else meet g fuel fresh (seen ++ fresh)

/-- A node and all nodes below it; no path without repetition is longer than the number of nodes. -/
def subtree (g : Graph ι) (id : ι) : List ι :=
  g.meet g.nodes.length [id] [id]

end Graph

end StartNodes
