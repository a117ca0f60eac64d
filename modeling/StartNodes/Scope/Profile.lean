import StartNodes.Principal
import StartNodes.Scope.Stored

/-!
Principals whose start nodes nobody has checked: a group may declare any value, null standing for no node, and a
principal's own start nodes may be any value too. Where all of it is nodes, a profile says the same as a principal:
`nodes?_profile`.
-/

namespace StartNodes

/-- A group with an unchecked declaration in each hierarchy. -/
abbrev GroupProfile := GroupWith Json

/-- A principal with unchecked declarations. -/
abbrev Profile := PrincipalWith Json Json

/-- The value that a group declares by a node or none. -/
def Stored.ofId? : Option NodeId → Json
  | some id => .int id
  | none => .null

/-- A checked group as one that nobody has checked. -/
def UserGroup.profile (g : UserGroup) : GroupProfile :=
  g.map Stored.ofId?

/-- A checked principal as one that nobody has checked. -/
def Principal.profile (p : Principal) : Profile :=
  p.map Stored.ofId? Stored.ofIds

namespace Profile

/-- What a group declares, if it declares anything. -/
def declaration? : Json → Option Item
  | .null => none
  | value => some ⟨value⟩

/-- The distinct items that the groups declare, in the order of the groups. -/
def groupItems (p : Profile) (kind : Hierarchy) : List Item :=
  ((p.groupDeclarations kind).filterMap declaration?).eraseDups

/-- What the groups declare and what the principal has of its own, if all of it is nodes. -/
def nodes? (p : Profile) (kind : Hierarchy) : Option (List NodeId × List NodeId) :=
  match ((p.groupDeclarations kind).filterMap declaration?).mapM fun item => item.value.int?,
      Stored.ids? (p.userStarts kind) with
  | some groups, some own => some (groups.eraseDups, own)
  | _, _ => none

/-- What the groups declare and what the principal has of its own, as items that can be looked up. -/
def items (p : Profile) (kind : Hierarchy) : Except StoredError (List Item × List Item) := do
  let own ← Stored.listed (p.userStarts kind)
  return (← Stored.keys (p.groupItems kind), ← Stored.keys own)

theorem mapM_int?_declarations (starts : List (Option NodeId)) :
    (((starts.map Stored.ofId?).filterMap declaration?).mapM fun item => item.value.int?) = some (starts.filterMap id) := by
  induction starts with
  | nil => rfl
  | cons start starts ih =>
    cases start with
    | none => exact ih
    | some n =>
      change List.mapM _ (Item.ofId n :: _) = _
      rw [List.mapM_cons, ih]
      rfl

/-- The profile of a checked principal declares its nodes. -/
theorem nodes?_profile (p : Principal) (kind : Hierarchy) :
    nodes? p.profile kind = some (p.groupStarts kind, p.userStarts kind) := by
  simp only [nodes?, Principal.profile, PrincipalWith.groupDeclarations_map, PrincipalWith.userStarts_map,
    mapM_int?_declarations, Stored.ids?_ofIds, Principal.groupStarts]

end Profile

end StartNodes
