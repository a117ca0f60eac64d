import StartNodes.Scope.Access
import StartNodes.Scope.Lookup

/-!
Start nodes as a JSON value, as a cache slot holds them and as they may be declared where nothing is checked. A list of
whole numbers is a list of nodes. Anything else that lists something lists items: its own, its keys or its characters.
-/

namespace StartNodes

inductive StoredError where
  /-- The value lists nothing, or one of its items cannot be looked up. -/
  | unusable
  | access (e : AccessError)
  deriving DecidableEq, Repr

namespace Stored

def ofIds (ids : List NodeId) : Json := Json.ofInts ids

def ofItems (items : List Item) : Json := .arr (items.map Item.value)

/-- The nodes that a value holds, if it is a list of whole numbers. -/
def ids? : Json → Option (List NodeId)
  | .arr items => items.mapM Json.int?
  | _ => none

/-- What a value lists. -/
def listed : Json → Except StoredError (List Item)
  | .arr items => .ok (items.map Item.mk)
  | .obj members => .ok (members.map fun m => ⟨.str m.1⟩)
  | .str s => .ok ((Text.singles s).map fun single => ⟨.str single⟩)
  | _ => .error .unusable

/-- Items that can all be looked up. -/
def keys (items : List Item) : Except StoredError (List Item) :=
  if items.all Item.isKey then .ok items else .error .unusable

/-- Whether a value can be emptied; a text, which lists its characters, cannot. -/
def canBeEmptied : Json → Bool
  | .str _ => false
  | _ => true

/-- Whether one of the items is in a chain of nodes. -/
def meets (chain : List NodeId) : List Item → Except StoredError Bool
  | [] => .ok false
  | item :: items =>
      if !item.isKey then .error .unusable
      else if item.node?.any chain.contains then .ok true
      else meets chain items

/-- Whether a stored value gives access to the node at a path. -/
def hasPathAccess (path : String) (stored : Json) (bin : String) : Except StoredError Bool :=
  match ids? stored with
  | some ids => (Scope.hasPathAccess path ids bin).mapError .access
  | none =>
      if path.isEmpty then .error (.access .emptyPath)
      else if Path.isUnder path bin then .ok false
      else do
        let items ← listed stored
        if items.isEmpty then return false
        if items.any fun item => item == Item.root then return true
        match Path.ids path with
        | .error e => .error (.access (.component e))
        | .ok chain => meets chain items

/-- The items of a stored value whose paths have to be looked up. -/
def asked (items : List Item) : List Item :=
  items.filter (· != Item.root)

def pathsOf (table : PathTable Item) (items : List Item) : Except StoredError (List String) :=
  (keys items).map (Scope.pathsOf (table.pathFrom? Item.root))

@[simp]
theorem ids?_ofIds (ids : List NodeId) : ids? (ofIds ids) = some ids := by
  induction ids with
  | nil => rfl
  | cons id ids ih =>
      simp only [ids?, ofIds, Json.ofInts, List.map_cons, List.mapM_cons] at ih ⊢
      simp [Json.int?, ih]

end Stored

end StartNodes
