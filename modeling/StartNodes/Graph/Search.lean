import StartNodes.Graph.Basic
import StartNodes.NodeName

/-!
Shortest paths, by breadth-first search from both ends. The smaller of the two frontiers is expanded next,
the one at the start if they are equally large, and the search ends at the first node that has been met
from both ends. A node remembers by which neighbour it was met first, and is called on the path as it was met.
-/

namespace StartNodes.Graph

variable {ι : Type}

inductive SearchError (ι : Type) where
  /-- The start is not in the graph. -/
  | missingSource (source : ι)
  /-- The target is not in the graph. -/
  | missingTarget (target : ι)
  /-- No edges lead from the start to the target. -/
  | noPath (source target : ι)
  deriving DecidableEq, Repr

open NodeName in
def SearchError.message [NodeName ι] : SearchError ι → String
  | .missingSource source => s!"Source {spelling source} is not in G"
  | .missingTarget target => s!"Target {spelling target} is not in G"
  | .noPath source target => s!"No path between {spelling source} and {spelling target}."

/-- The nodes met from one end, each with the neighbour by which it was met; the end itself has none. -/
abbrev Trail (ι : Type) := List (ι × Option ι)

/-- The steps from the nodes of a frontier to their neighbours. -/
def stepsFrom (neighbours : ι → List ι) (frontier : List ι) : List (ι × ι) :=
  frontier.flatMap fun id => (neighbours id).map fun next => (id, next)

variable [BEq ι]

def Trail.has (trail : Trail ι) (id : ι) : Bool :=
  trail.any fun step => step.1 == id

/-- The nodes from a node back to the end at which the trail began; `fuel` bounds their number. -/
def Trail.follow (trail : Trail ι) : Nat → ι → List ι
  | 0, _ => []
  | fuel + 1, id =>
      id :: match trail.lookup id with
        | some (some next) => follow trail fuel next
        | _ => []

/-- Walks along steps from one frontier: nodes met for the first time join the trail and the next frontier,
and the walk stops at the first node that the other trail has. -/
def advance (other : Trail ι) :
    List (ι × ι) → Trail ι → List ι → Option ι × Trail ι × List ι
  | [], trail, frontier => (none, trail, frontier)
  | (via, id) :: steps, trail, frontier =>
      let (trail, frontier) :=
        if trail.has id then (trail, frontier) else (trail ++ [(id, some via)], frontier ++ [id])
      if other.has id then (some id, trail, frontier) else advance other steps trail frontier

/-- Searches until the two trails meet; gives the node where they meet and both trails. -/
def search (g : Graph ι) : Nat → Trail ι → Trail ι → List ι → List ι → Option (ι × Trail ι × Trail ι)
  | 0, _, _, _, _ => none
  | fuel + 1, ahead, back, forward, backward =>
      if forward.isEmpty || backward.isEmpty then none
      else if forward.length ≤ backward.length then
        match advance back (stepsFrom g.children forward) ahead [] with
        | (some id, ahead, _) => some (id, ahead, back)
        | (none, ahead, forward) => search g fuel ahead back forward backward
      else
        match advance ahead (stepsFrom g.parents backward) back [] with
        | (some id, back, _) => some (id, ahead, back)
        | (none, back, backward) => search g fuel ahead back forward backward

/-- A shortest path from one node to another. Each round but the last meets a node for the first time from one of the
two ends, so twice the number of nodes bounds the rounds. -/
def shortestPath (g : Graph ι) (source target : ι) : Except (SearchError ι) (List ι) :=
  if !g.hasNode source then .error (.missingSource source)
  else if !g.hasNode target then .error (.missingTarget target)
  else if source == target then .ok [source]
  else
    let fuel := g.nodes.length
    match g.search (2 * fuel + 2) [(source, none)] [(target, none)] [source] [target] with
    | none => .error (.noPath source target)
    | some (id, ahead, back) =>
        .ok ((ahead.follow (fuel + 1) id).reverse ++ (back.follow (fuel + 1) id).tail)

end StartNodes.Graph
