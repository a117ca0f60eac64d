import StartNodes.Directory.Basic
import StartNodes.Json.Reader
import StartNodes.Json.Printer

/-!
Snapshots of a directory: an object with one section for each hierarchy, which lists the nodes of its graph
and, as links, its edges. A snapshot that is read may describe any directed graph. Its sections are put in place
one after the other, and a section that is refused leaves those before it in place.
-/

namespace StartNodes

inductive SnapshotError where
  /-- The text is no JSON text. -/
  | text (e : Json.ReadError)
  /-- An object lacks a key. -/
  | missingKey (key : String)
  /-- A value is of a kind that does not admit what is asked of it. -/
  | wrongKind
  /-- A value is asked for its members and is not an object. -/
  | noMembers
  /-- A node's id is null. -/
  | nullNode
  /-- A node's id is no name of a node. -/
  | noName
  deriving DecidableEq, Repr

namespace Graph

/-! ### Members and items of a section -/

def require (members : List (String × Json)) (key : String) : Except SnapshotError Json :=
  match Json.member? members key with
  | some value => .ok value
  | none => .error (.missingKey key)

/-- The members of an object other than some. -/
def without (keys : List String) (members : List (String × Json)) : Attributes :=
  members.filter fun m => !keys.any fun key => m.1 == key

/-- Whether none of some names is among the names of attributes. -/
def free (names : List String) (attributes : Attributes) : Bool :=
  attributes.all fun m => !names.any fun name => m.1 == name

/-- The names that a node's attributes cannot have. -/
def nodeNames : List String := ["self", "node_for_adding"]

/-- The names that a link's attributes cannot have. -/
def linkNames : List String := ["self", "u_of_edge", "v_of_edge"]

/-- The items of a list, each with its place. What stands for a list may be an object or a string, whose items are
its keys or characters; `item` refuses those. -/
def listed {γ : Type} (item : γ → Nat → Json → Except SnapshotError γ) (start : γ) : Json → Except SnapshotError γ
  | .arr items => items.zipIdx.foldlM (fun soFar (value, index) => item soFar index value) start
  | .obj members => members.foldlM (fun soFar m => item soFar 0 (.str m.1)) start
  | .str s => (Text.singles s).foldlM (fun soFar single => item soFar 0 (.str single)) start
  | _ => .error .wrongKind

/-! ### Writing -/

variable {ι : Type} [NodeName ι]

/-- A node of a section: its attributes, then its id. -/
def nodeJson (n : Node ι) : Json :=
  .obj (n.attributes ++ ([("id", NodeName.toJson n.id)] : Attributes))

/-- A link of a section: its attributes, then its two ends. -/
def linkJson (e : Edge ι) : Json :=
  .obj (e.attributes ++ ([("source", NodeName.toJson e.source), ("target", NodeName.toJson e.target)] : Attributes))

variable [BEq ι]

/-- The edges of a graph, grouped by their source in the order of the nodes. The source is called as the node is. -/
def groupedEdges (g : Graph ι) : List (Edge ι) :=
  g.nodes.flatMap fun n => (g.edges.filter fun e => e.source == n.id).map fun e => { e with source := n.id }

def toJson (g : Graph ι) : Json :=
  .obj [("directed", .bool true), ("multigraph", .bool false), ("graph", g.attributes),
    ("nodes", .arr (g.nodes.map nodeJson)), ("links", .arr (g.groupedEdges.map linkJson))]

/-! ### Reading -/

/-- The node that a value names. -/
def nameOf {κ : Type} [NodeName κ] : Json → Except SnapshotError κ
  | .null => .error .nullNode
  | value =>
      match NodeName.ofJson? value with
      | some name => .ok name
      | none => .error .noName

/-- Reads a node; one without an id takes its place in the list as its id. -/
def readNode (g : Graph ι) (index : Nat) : Json → Except SnapshotError (Graph ι)
  | .obj members => do
      let attributes := without ["id"] members
      if !free nodeNames attributes then .error .wrongKind
      let id ← nameOf ((Json.member? members "id").getD (.int index))
      return g.addNode id attributes
  | _ => .error .noMembers

def readLink (g : Graph ι) : Json → Except SnapshotError (Graph ι)
  | .obj members => do
      let source ← require members "source"
      let target ← require members "target"
      let attributes := without ["source", "target"] members
      if !free linkNames attributes then .error .wrongKind
      return g.addEdge (← nameOf source) (← nameOf target) attributes
  | _ => .error .wrongKind

/-- Reads the section of a graph: its nodes, then its links. Every section is read as that of a plain directed graph. What it
says of itself with the members `directed` and `multigraph` is not looked at, and a list names no node: sections that make
use of either are not covered. -/
def ofJson : Json → Except SnapshotError (Graph ι)
  | .obj members => do
      let g : Graph ι := { attributes := (Json.member? members "graph").getD (.obj []) }
      let g ← listed readNode g (← require members "nodes")
      listed (fun g _ value => g.readLink value) g (← require members "links")
  | _ => .error .noMembers

end Graph

namespace Directory

/-- The rules for reading a snapshot. The depth is no property of snapshots: a reader descends by one call for each array or
object, and of the 1000 calls that may nest its callers have made twelve. Snapshots that are saved are four deep. -/
def snapshotRules : Json.Rules := ⟨988, true, none⟩

/-- Whether a text occurs in another. -/
def occursIn (word : List Char) : List Char → Bool
  | [] => word.isEmpty
  | c :: rest => word.isPrefixOf (c :: rest) || occursIn word rest

/-- The section of a hierarchy in a snapshot, if there is one. A list or a string that mentions the name
of the hierarchy has no section to give. -/
def sectionOf? (snapshot : Json) (kind : Hierarchy) : Except SnapshotError (Option Json) :=
  match snapshot with
  | .obj members => .ok (Json.member? members kind.name)
  | .arr items => if items.any fun item => item.string? == some kind.name then .error .wrongKind else .ok none
  | .str s => if occursIn kind.name.toList s.toList then .error .wrongKind else .ok none
  | _ => .error .wrongKind

variable {ι : Type} [BEq ι] [NodeName ι]

def toJson (d : Directory ι) : Json :=
  .obj (Hierarchy.all.map fun kind => (kind.name, (d.tree kind).toJson))

def save (d : Directory ι) : String :=
  d.toJson.write (.indented 2)

def loadSection (snapshot : Json) (d : Directory ι) (kind : Hierarchy) : Except SnapshotError (Directory ι) := do
  match ← sectionOf? snapshot kind with
  | none => return d
  | some value => return d.setTree kind (← Graph.ofJson value)

/-- Puts the sections of some hierarchies in place, one after the other, up to the first that is refused. -/
def loadSections (snapshot : Json) : List Hierarchy → Directory ι → Option SnapshotError × Directory ι
  | [], d => (none, d)
  | kind :: kinds, d =>
      match d.loadSection snapshot kind with
      | .error e => (some e, d)
      | .ok d => loadSections snapshot kinds d

/-- Loads a snapshot from its text; gives the directory afterwards, also when the snapshot is refused. -/
def load (d : Directory ι) (text : String) : Option SnapshotError × Directory ι :=
  match Json.read snapshotRules text with
  | .error e => (some (.text e), d)
  | .ok snapshot => loadSections snapshot Hierarchy.all d

end Directory

end StartNodes
