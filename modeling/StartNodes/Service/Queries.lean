import StartNodes.Service.Cached

/-!
Questions about principals: the effective start nodes in a hierarchy, their paths, and whether they give access to a
node. With a cache, start nodes and paths are computed once and kept until they are dropped.
-/

namespace StartNodes.Service

/-- The slot of a principal, computed and kept if there is a cache, computed each time if there is none. -/
def memoize (p : Profile) (slot : String) (factory : ServiceM Json) : ServiceM Json := do
  match (← get).cache with
  | none => factory
  | some _ => compute (.number p.userId) slot factory

/-- Computes the effective start nodes of a principal. -/
def computeIds (kind : Hierarchy) (p : Profile) : ServiceM Json := do
  match p.nodes? kind with
  | some (groups, own) =>
      (Scope.questions groups own).forM fun ids => record kind (ids.map Item.ofId)
      return Stored.ofIds (← answer .lookup (Scope.combineIds (← get).source kind groups own))
  | none =>
      let (groups, own) ← answer .ofStored (p.items kind)
      (Scope.questions groups own).forM fun items => record kind items
      return Stored.ofItems (← answer .lookup (Scope.combineItems (← get).source kind groups own))

def effectiveIds (kind : Hierarchy) (p : Profile) : ServiceM Json :=
  memoize p kind.idsSlot (computeIds kind p)

def computePaths (kind : Hierarchy) (stored : Json) : ServiceM (List String) := do
  match Stored.ids? stored with
  | some ids =>
      let asked := ids.filter (· != rootId)
      let table ← if asked.isEmpty then pure [] else resolveIds kind asked
      return Scope.pathsOf (PathTable.path? table) ids
  | none =>
      let items ← answer .ofStored (Stored.listed stored)
      let asked := Stored.asked items
      let table ← if asked.isEmpty then pure [] else resolve kind asked
      answer .ofStored (Stored.pathsOf table items)

/-- What the effective start nodes of a principal list, and the effective start nodes asked for again after the first
answer has been emptied, which changes nothing of what is kept. -/
def idsTwice (kind : Hierarchy) (p : Profile) : ServiceM (List Item × Json) := do
  let first ← effectiveIds kind p
  let items ← answer .ofStored (Stored.listed first)
  if !Stored.canBeEmptied first then throw .notEmptied
  return (items, ← effectiveIds kind p)

/-- The paths of the effective start nodes of a principal, in their order. -/
def effectivePaths (kind : Hierarchy) (p : Profile) : ServiceM Json :=
  memoize p kind.pathsSlot do
    return Json.ofStrings (← computePaths kind (← effectiveIds kind p))

/-- A node that access is asked to. -/
inductive Target where
  | root
  | bin
  /-- The node of an entity, which has to be given. -/
  | entity (e : Option EntityPath)

def Target.path (kind : Hierarchy) : Target → Except AccessError String
  | .root => .ok Path.root
  | .bin => .ok (Path.bin kind)
  | .entity none => .error .noEntity
  | .entity (some e) => .ok e.path

/-- Whether a principal, which has to be given, has access to a target in a hierarchy. -/
def hasAccess (kind : Hierarchy) (target : Target) (p : Option Profile) : ServiceM Bool := do
  let path ← answer .access (target.path kind)
  match p with
  | none => throw (.access .noPrincipal)
  | some p => answer .ofStored (Stored.hasPathAccess path (← effectiveIds kind p) (Path.bin kind))

/-- Whether a principal, which has to be given, may see sensitive data. -/
def hasSensitiveAccess (p : Option Profile) : ServiceM Bool := do
  match p with
  | none => throw (.access .noPrincipal)
  | some p => return p.belongsTo (← currentSettings).sensitiveDataGroupAlias

end StartNodes.Service
