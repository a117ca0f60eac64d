import StartNodes.Command.Arguments
import StartNodes.Command.Files
import StartNodes.Service.Basic

/-!
Running commands. Each command loads the directory from its snapshot, does its task, and, if the task edits the
directory, saves it. A task that is refused is reported and leaves the files as they were; a snapshot that cannot be
loaded, a node that cannot be reached, and an option without the value that the task needs, end the program.
-/

namespace StartNodes.Command

def dataDirectory : String := ({} : Settings).dataDir

def snapshotFile : String := Text.FileName.join dataDirectory "directory.json"

/-- What a task can fail of. -/
inductive Failure where
  | file (e : FileError)
  /-- A file is no text. -/
  | octets (r : Text.Utf8.Refusal)
  | service (e : ServiceError)
  | edit (e : EditFailure NodeId)
  /-- The hierarchy has no value. -/
  | noHierarchy
  /-- The node has no value. -/
  | noNode
  /-- The parent of a new node has no value. -/
  | noParent (kind : Hierarchy)
  /-- The file of the principal has no value. -/
  | noPrincipal

namespace Failure

def message : Failure → String
  | .file e => e.message
  | .octets r => r.message
  | .service e => e.message
  | .edit e => e.message
  | .noHierarchy => "[] is not a valid HierarchyKind"
  | .noNode => ""
  | .noParent kind => s!"Parent [] does not exist in the {kind.name} tree."
  | .noPrincipal => ""

/-- Whether a task that fails of it is reported as refused; any other failure ends the program. -/
def isReported : Failure → Bool
  | .file _ => true
  | .octets _ => true
  | .edit (.refused (.noParent _)) => false
  | .edit _ => true
  | .service (.invalid _) => true
  | .service (.access _) => true
  | .service _ => false
  | .noParent _ => true
  | _ => false

end Failure

inductive Ending where
  | exit (code : Nat)
  /-- The program ends of a failure that it does not report. -/
  | aborted (f : Failure)

structure Outcome where
  ending : Ending
  output : String := ""
  refusal : Option Refusal := none
  /-- The lines that report a task as refused. -/
  log : List String := []
  /-- The text of the snapshot, if the run has changed it. -/
  snapshot : Option String := none

def readText (fs : Files) (name : String) : Except Failure String :=
  match fs.read name with
  | .error e => .error (.file e)
  | .ok octets => (Text.Utf8.decode octets).mapError .octets

/-- Loads the directory from its snapshot; without a snapshot it is the seeded one. -/
def loadDirectory (fs : Files) : Except Failure (Directory NodeId) :=
  match fs.find snapshotFile with
  | .missing => .ok .seeded
  | .blocked => .ok .seeded
  | _ =>
      match readText fs snapshotFile with
      | .error e => .error e
      | .ok text =>
          match (Directory.seeded : Directory NodeId).load text with
          | (some e, _) => .error (.service (.snapshot e))
          | (none, d) => .ok d

def saveDirectory (fs : Files) (d : Directory NodeId) : Except Failure Files :=
  match fs.makeDirectory dataDirectory with
  | .error e => .error (.file e)
  | .ok fs => (fs.write snapshotFile (Text.Utf8.encode d.save)).mapError .file

def loadPrincipal (fs : Files) : Option String → Except Failure Principal
  | none => .error .noPrincipal
  | some name =>
      match readText fs name with
      | .error e => .error e
      | .ok text => (Principal.ofText text).mapError fun f => .service (.invalid f)

def startIds (d : Directory NodeId) (kind : Hierarchy) (p : Principal) : Except Failure (List NodeId) :=
  (Scope.combineIds (.trees (.plain d)) kind (p.groupStarts kind) (p.userStarts kind)).mapError fun e =>
    .service (.lookup e)

def startPaths (d : Directory NodeId) (kind : Hierarchy) (ids : List NodeId) : Except Failure (List String) :=
  match (d.paths kind (ids.filter (· != rootId))).mapError LookupError.search with
  | .error e => .error (.service (.lookup e))
  | .ok table => .ok (Scope.pathsOf (PathTable.path? table) ids)

/-- The last node of a path. -/
def lastId (path : String) : Option NodeId :=
  (Path.ids path).toOption.bind List.getLast?

def startLines (ids : List NodeId) (paths : List String) : List String :=
  if ids.isEmpty then ["  (none)"]
  else ids.map fun id =>
    let path := (paths.reverse.find? fun path => lastId path == some id).getD "?"
    s!"  {id}: {path}"

def unlines (lines : List String) : String :=
  String.join (lines.map fun line => line ++ "\n")

/-- Adds a node to a hierarchy. A parent without a value is no node of any tree. -/
def addNode (d : Directory NodeId) (kind : Hierarchy) (id : NodeId) : Option NodeId → Except Failure (String × Directory NodeId)
  | none => .error (((d.tree kind).newRefusal? kind id).elim (.noParent kind) fun e => .edit (.refused e))
  | some parent =>
      match d.editAndReport kind (.add id parent) with
      | (.error e, _) => .error (.edit e)
      | (.ok (), d) => .ok (unlines [s!"Added {kind.name} node {id} under {parent}"], d)

/-- Moves a node of a hierarchy into the recycle bin. -/
def trashNode (d : Directory NodeId) (kind : Hierarchy) (id : NodeId) : Except Failure (String × Directory NodeId) :=
  match d.editAndReport kind (.trash id) with
  | (.error e, _) => .error (.edit e)
  | (.ok (), d) => .ok (unlines [s!"Moved {kind.name} node {id} to the recycle bin"], d)

/-- Lists the effective start nodes of the principal in a file. -/
def resolve (fs : Files) (d : Directory NodeId) (kind : Hierarchy) (file : Option String) : Except Failure String := do
  let p ← loadPrincipal fs file
  let ids ← startIds d kind p
  let paths ← startPaths d kind ids
  let heading := s!"Effective {kind.name} start nodes for principal {p.userId}:"
  return unlines (heading :: startLines ids paths)

/-- Says whether the principal in a file has access to a path; a path without a value is empty. -/
def check (fs : Files) (d : Directory NodeId) (kind : Hierarchy) (file path : Option String) : Except Failure String := do
  let p ← loadPrincipal fs file
  let ids ← startIds d kind p
  match Scope.hasPathAccess (path.getD "") ids (Path.bin kind) with
  | .error e => .error (.service (.access e))
  | .ok allowed => return unlines [if allowed then "ALLOWED" else "DENIED"]

/-- Does a task in a hierarchy of a directory: gives the output and, if the task edits the directory, the directory
afterwards. -/
def perform (fs : Files) (d : Directory NodeId) (kind : Hierarchy) : Task → Except Failure (String × Option (Directory NodeId))
  | .addNode _ none _ => .error .noNode
  | .addNode _ (some id) parent => (addNode d kind id parent).map fun (output, d) => (output, some d)
  | .trash _ none => .error .noNode
  | .trash _ (some id) => (trashNode d kind id).map fun (output, d) => (output, some d)
  | .resolve _ file => (resolve fs d kind file).map fun output => (output, none)
  | .check _ file path => (check fs d kind file path).map fun output => (output, none)

/-- Does a task and saves the directory if it has been edited. -/
def performAndSave (fs : Files) (d : Directory NodeId) (kind : Hierarchy) (t : Task) : Except Failure (String × Files) := do
  let (output, edited) ← perform fs d kind t
  match edited with
  | none => return (output, fs)
  | some d => return (output, ← saveDirectory fs d)

/-- The text of the snapshot in some files. -/
def snapshotText? (fs : Files) : Option String :=
  (readText fs snapshotFile).toOption

def runTask (fs : Files) (t : Task) : Outcome × Files :=
  match t.kind with
  | none => ({ ending := .aborted .noHierarchy }, fs)
  | some kind =>
      match loadDirectory fs with
      | .error e => ({ ending := .aborted e }, fs)
      | .ok d =>
          match performAndSave fs d kind t with
          | .ok (output, after) =>
              let text := snapshotText? after
              ({ ending := .exit 0, output, snapshot := if text == snapshotText? fs then none else text }, after)
          | .error e =>
              if e.isReported then
                ({ ending := .exit 1, log := [s!"Command '{t.name}' failed: {e.message}"] }, fs)
              else ({ ending := .aborted e }, fs)

def run (fs : Files) (arguments : List String) : Outcome × Files :=
  match readCommandLine arguments with
  | .help text => ({ ending := .exit 0, output := text }, fs)
  | .refused r => ({ ending := .exit 2, refusal := some r }, fs)
  | .task t => runTask fs t

def runAll (fs : Files) : List (List String) → List Outcome × Files
  | [] => ([], fs)
  | arguments :: rest =>
      let (outcome, fs) := run fs arguments
      let (outcomes, fs) := runAll fs rest
      (outcome :: outcomes, fs)

end StartNodes.Command
