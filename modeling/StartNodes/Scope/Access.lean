import StartNodes.Path

/-!
Whether start nodes give access to a node, decided on the node's path: nothing under the recycle bin is
accessible, the root gives access to everything else, and any other start node to itself and to what lies
under it.
-/

namespace StartNodes

inductive AccessError where
  | emptyPath
  | noEntity
  | noPrincipal
  /-- A component of the path is not an integer. -/
  | component (e : Decimal.NumeralError)
  deriving DecidableEq, Repr

def AccessError.message : AccessError → String
  | .emptyPath => "path must be a non-empty string"
  | .noEntity => "entity must not be None"
  | .noPrincipal => "principal must not be None"
  | .component e => e.message

namespace Scope

/-- Whether start nodes give access to the node at a path, where `bin` is the path of the recycle bin. The path's
components are read only if the answer depends on them. -/
def hasPathAccess (path : String) (starts : List NodeId) (bin : String) : Except AccessError Bool :=
  if path.isEmpty then .error .emptyPath
  else if Path.isUnder path bin then .ok false
  else if starts.isEmpty then .ok false
  else if starts.contains rootId then .ok true
  else
    match Path.ids path with
    | .error e => .error (.component e)
    | .ok chain => .ok (starts.any fun start => chain.contains start)

end Scope

end StartNodes
