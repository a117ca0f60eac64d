import StartNodes.Directory.Snapshot
import StartNodes.Item

/-!
The trees of a directory that anyone may edit, naming nodes by any item. As long as every node is named by its id the
trees are those of a `Directory NodeId`, and edits act on it as they stand, as do snapshots: `edit_plain`, `load_plain`.
An edit or a snapshot that names a node in another way turns them into a `Directory Item`, in which each node and each
end of an edge keeps its spelling.
-/

namespace StartNodes

/-- The edit with its names written in another way. -/
def Edit.map {ι κ : Type} (f : ι → κ) : Edit ι → Edit κ
  | .add id parent => .add (f id) (f parent)
  | .move id parent => .move (f id) (f parent)
  | .trash id => .trash (f id)
  | .remove id => .remove (f id)

def Edit.id {ι : Type} : Edit ι → ι
  | .add id _ => id
  | .move id _ => id
  | .trash id => id
  | .remove id => id

/-- An edit that names every node by its id, written with the ids. -/
def Edit.ids? : Edit Item → Option (Edit NodeId)
  | .add id parent => do return .add (← id.value.int?) (← parent.value.int?)
  | .move id parent => do return .move (← id.value.int?) (← parent.value.int?)
  | .trash id => do return .trash (← id.value.int?)
  | .remove id => do return .remove (← id.value.int?)

@[simp]
theorem Edit.ids?_map_ofId (e : Edit NodeId) : (e.map Item.ofId).ids? = some e := by
  cases e <;> rfl

/-- The trees of a directory. -/
inductive Trees where
  /-- Every node is named by its id. -/
  | plain (d : Directory NodeId)
  /-- Nodes are named by items. -/
  | spelled (d : Directory Item)

namespace Trees

inductive Refusal where
  | edit (e : EditError Item)
  /-- The node is named by a value that is no name. -/
  | noName
  /-- The new node is named by null. -/
  | nullNode
  /-- The text that would report or refuse the edit cannot be written. -/
  | unwritable (e : Decimal.WritingError)

namespace Refusal

def message : Refusal → String
  | .edit e => e.message
  | .noName => ""
  | .nullNode => "None cannot be a node"
  | .unwritable e => e.message

def ofFailure : EditFailure Item → Refusal
  | .refused e => .edit e
  | .unwritable e => .unwritable e

end Refusal

def seeded : Trees := .plain .seeded

/-- The directory whose nodes are named by items. -/
def items : Trees → Directory Item
  | .plain d => d.map Item.ofId
  | .spelled d => d

/-- Applies an edit to a directory whose nodes are named by items; gives the directory afterwards if the edit has been
made. -/
def editItems (d : Directory Item) (kind : Hierarchy) (e : Edit Item) : Except Refusal Unit × Option (Directory Item) :=
  if !e.id.isKey then (.error .noName, none)
  else
    let (outcome, edited) := d.edit kind e
    let reported := ((d.tree kind).report kind e outcome).mapError .ofFailure
    match outcome, e with
    | .error _, _ => (reported, none)
    | .ok (), .add ⟨.null⟩ _ => (.error .nullNode, none)
    | .ok (), _ => (reported, some edited)

/-- Applies an edit to one hierarchy and reports it; gives the trees afterwards, also when the edit is refused. -/
def edit (t : Trees) (kind : Hierarchy) (e : Edit Item) : Except Refusal Unit × Trees :=
  match t, e.ids? with
  | .plain d, some e =>
      let (outcome, d) := d.editAndReport kind e
      (outcome.mapError fun f => .ofFailure (f.map Item.ofId), .plain d)
  | t, _ =>
      let (outcome, edited) := editItems t.items kind e
      (outcome, edited.elim t .spelled)

def save : Trees → String
  | .plain d => d.save
  | .spelled d => d.save

/-- Loads a snapshot from its text; gives the trees afterwards, also when the snapshot is refused. -/
def load (t : Trees) (text : String) : Option SnapshotError × Trees :=
  let spelled (d : Directory Item) :=
    let (refusal, d) := d.load text
    (refusal, Trees.spelled d)
  match t with
  | .spelled d => spelled d
  | .plain d =>
      match d.load text with
      | (some .noName, _) => spelled (d.map Item.ofId)
      | (refusal, d) => (refusal, .plain d)

/-- An edit that names every node by its id acts on the ids. -/
theorem edit_plain (d : Directory NodeId) (kind : Hierarchy) (e : Edit NodeId) :
    (plain d).edit kind (e.map Item.ofId) =
      ((d.editAndReport kind e).1.mapError fun f => .ofFailure (f.map Item.ofId), .plain (d.edit kind e).2) := by
  simp [edit, Directory.editAndReport]

/-- A snapshot that names every node by its id is put in place as it stands. -/
theorem load_plain (d : Directory NodeId) {text : String} (h : (d.load text).1 ≠ some .noName) :
    (plain d).load text = ((d.load text).1, .plain (d.load text).2) := by
  cases hload : d.load text with
  | mk refusal d' =>
      -- `h` rules out the snapshot that is read again with names of another kind
      rw [hload] at h
      simp only [load, hload]

end Trees

end StartNodes
