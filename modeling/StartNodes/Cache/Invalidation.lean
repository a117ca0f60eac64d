import StartNodes.Cache.Basic
import StartNodes.Hierarchy

/-!
Dropping cached scopes when what they depend on has changed. Each hierarchy has two slots, one for the start nodes
of a principal and one for their paths; an announced change drops the slots of some hierarchies for every principal
that it names.
-/

namespace StartNodes

namespace Hierarchy

/-- How the names of a hierarchy's slots begin. -/
def slotStem : Hierarchy → String
  | .content => "content"
  | .media => "media"

def idsSlot (kind : Hierarchy) : String := kind.slotStem ++ "_start_node_ids"

def pathsSlot (kind : Hierarchy) : String := kind.slotStem ++ "_start_node_paths"

def slots (kind : Hierarchy) : List String := [kind.idsSlot, kind.pathsSlot]

end Hierarchy

inductive Change where
  /-- The start nodes set on a principal. -/
  | startNodes (p : PrincipalKey)
  /-- The groups that a principal belongs to. -/
  | groups (p : PrincipalKey) (aliases : List String)
  /-- The start nodes of a group, with its members. -/
  | groupStartNodes (aliasName : String) (members : List PrincipalKey)
  deriving DecidableEq, Repr

/-- The principals whose scopes a change concerns. -/
def Change.principals : Change → List PrincipalKey
  | .startNodes p => [p]
  | .groups p _ => [p]
  | .groupStartNodes _ members => members

namespace Cache

variable {V : Type}

/-- Removes slots of principals, one after the other, up to the first that is refused. -/
def forgetAll (c : Cache V) : List (PrincipalKey × String) → Except LockError Unit × Cache V
  | [] => (.ok (), c)
  | (p, slot) :: rest =>
      match c.forget p slot with
      | (.error err, c) => (.error err, c)
      | (.ok (), c) => forgetAll c rest

/-- The slots of some hierarchies, for each of some principals. -/
def scopeSlots (kinds : List Hierarchy) (ps : List PrincipalKey) : List (PrincipalKey × String) :=
  ps.flatMap fun p => (kinds.flatMap Hierarchy.slots).map fun slot => (p, slot)

/-- Drops what a change makes stale. -/
def invalidate (c : Cache V) (kinds : List Hierarchy) (change : Change) : Except LockError Unit × Cache V :=
  c.forgetAll (scopeSlots kinds change.principals)

end Cache

end StartNodes
