import StartNodes.Hierarchy

/-!
Principals: users whose scope is resolved. A principal has start nodes of its own and belongs to groups, each
of which declares at most one start node in each hierarchy.

How start nodes are given is left open: `σ` is what a group declares in a hierarchy, `τ` what a principal has there. A
principal that has been checked has nodes in both places.
-/

namespace StartNodes

/-- A node together with its path. -/
structure EntityPath where
  id : NodeId
  path : String
  deriving DecidableEq, Repr

structure GroupWith (σ : Type) where
  aliasName : String
  name : String
  startContent : σ
  startMedia : σ
  deriving DecidableEq, Repr

/-- A group that declares a node in a hierarchy or none. -/
abbrev UserGroup := GroupWith (Option NodeId)

namespace GroupWith

variable {σ : Type}

/-- What a group declares in a hierarchy. -/
def start (g : GroupWith σ) : Hierarchy → σ
  | .content => g.startContent
  | .media => g.startMedia

/-- The group with another declaration in a hierarchy. -/
def setStart (g : GroupWith σ) (start : σ) : Hierarchy → GroupWith σ
  | .content => { g with startContent := start }
  | .media => { g with startMedia := start }

/-- The group with its declarations written in another way. -/
def map {σ' : Type} (f : σ → σ') (g : GroupWith σ) : GroupWith σ' :=
  ⟨g.aliasName, g.name, f g.startContent, f g.startMedia⟩

theorem start_map {σ' : Type} (f : σ → σ') (g : GroupWith σ) (kind : Hierarchy) :
    (g.map f).start kind = f (g.start kind) := by
  cases kind <;> rfl

end GroupWith

/-- A user with its groups and its own start nodes. -/
structure PrincipalWith (σ τ : Type) where
  userId : Int
  name : String
  groups : List (GroupWith σ)
  startContent : τ
  startMedia : τ
  deriving DecidableEq, Repr

/-- A user whose groups each declare a node in a hierarchy or none, and who has a list of nodes there. -/
abbrev Principal := PrincipalWith (Option NodeId) (List NodeId)

namespace PrincipalWith

variable {σ τ : Type}

/-- The principal's own start nodes in a hierarchy. -/
def userStarts (p : PrincipalWith σ τ) : Hierarchy → τ
  | .content => p.startContent
  | .media => p.startMedia

/-- The principal with other start nodes of its own in a hierarchy. -/
def setUserStarts (p : PrincipalWith σ τ) (starts : τ) : Hierarchy → PrincipalWith σ τ
  | .content => { p with startContent := starts }
  | .media => { p with startMedia := starts }

def addGroup (p : PrincipalWith σ τ) (g : GroupWith σ) : PrincipalWith σ τ :=
  { p with groups := p.groups ++ [g] }

/-- The principal without its groups of the given alias. -/
def dropGroup (p : PrincipalWith σ τ) (aliasName : String) : PrincipalWith σ τ :=
  { p with groups := p.groups.filter fun g => g.aliasName != aliasName }

/-- The principal with another declaration in its groups of the given alias. -/
def setGroupStart (p : PrincipalWith σ τ) (aliasName : String) (start : σ) (kind : Hierarchy) : PrincipalWith σ τ :=
  { p with groups := p.groups.map fun g => if g.aliasName == aliasName then g.setStart start kind else g }

/-- Whether a principal belongs to a group of the given alias. -/
def belongsTo (p : PrincipalWith σ τ) (aliasName : String) : Bool :=
  p.groups.any fun g => g.aliasName == aliasName

/-- What the groups of a principal declare in a hierarchy, in the order of the groups. -/
def groupDeclarations (p : PrincipalWith σ τ) (kind : Hierarchy) : List σ :=
  p.groups.map fun g => g.start kind

/-- The principal with its declarations written in another way. -/
def map {σ' τ' : Type} (f : σ → σ') (g : τ → τ') (p : PrincipalWith σ τ) : PrincipalWith σ' τ' :=
  ⟨p.userId, p.name, p.groups.map (GroupWith.map f), g p.startContent, g p.startMedia⟩

@[simp]
theorem userStarts_setUserStarts (p : PrincipalWith σ τ) (starts : τ) (kind : Hierarchy) :
    (p.setUserStarts starts kind).userStarts kind = starts := by
  cases kind <;> rfl

@[simp]
theorem groupDeclarations_setUserStarts (p : PrincipalWith σ τ) (starts : τ) (a b : Hierarchy) :
    (p.setUserStarts starts a).groupDeclarations b = p.groupDeclarations b := by
  cases a <;> rfl

theorem userStarts_map {σ' τ' : Type} (f : σ → σ') (g : τ → τ') (p : PrincipalWith σ τ) (kind : Hierarchy) :
    (p.map f g).userStarts kind = g (p.userStarts kind) := by
  cases kind <;> rfl

theorem groupDeclarations_map {σ' τ' : Type} (f : σ → σ') (g : τ → τ') (p : PrincipalWith σ τ) (kind : Hierarchy) :
    (p.map f g).groupDeclarations kind = (p.groupDeclarations kind).map f := by
  simp [groupDeclarations, map, GroupWith.start_map]

end PrincipalWith

/-- The distinct start nodes that a principal's groups declare, in the order of the groups. -/
def Principal.groupStarts (p : Principal) (kind : Hierarchy) : List NodeId :=
  ((p.groupDeclarations kind).filterMap id).eraseDups

end StartNodes
