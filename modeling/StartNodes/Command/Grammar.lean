import StartNodes.Directory.Basic

/-!
The commands of the program and the options of each: what may be given on the command line.
-/

namespace StartNodes.Command

def program : String := "coreason-scope"

def description : String := "Coreason Scope CLI"

inductive ValueKind where
  | integer
  | hierarchy
  | text
  deriving DecidableEq, Repr

/-- An option, which takes one value. -/
structure OptionSpec where
  name : String
  kind : ValueKind
  required : Bool
  help : String

structure Subcommand where
  name : String
  help : String
  options : List OptionSpec

def hierarchyNames : List String :=
  Hierarchy.all.map Hierarchy.name

/-- How the value of an option is named in usage lines and help texts. -/
def OptionSpec.metavar (o : OptionSpec) : String :=
  match o.kind with
  | .hierarchy => "\x7b" ++ ",".intercalate hierarchyNames ++ "\x7d"
  | _ => ((o.name.drop 2).toString).map Char.toUpper

def kindOption : OptionSpec := ⟨"--kind", .hierarchy, false, "Hierarchy"⟩

def idOption : OptionSpec := ⟨"--id", .integer, true, "Node id"⟩

def parentOption : OptionSpec := ⟨"--parent", .integer, false, "Parent node id"⟩

/-- The file that describes a principal. -/
def principalOption : OptionSpec := ⟨"--principal", .text, true, "Principal JSON file"⟩

/-- The path that access is asked to. -/
def pathOption : OptionSpec := ⟨"--path", .text, true, "Node path, e.g. --path=-1,10,99"⟩

def subcommands : List Subcommand :=
  [⟨"add-node", "Add a node to a tree", [kindOption, idOption, parentOption]⟩,
   ⟨"trash", "Move a node into the recycle bin", [kindOption, idOption]⟩,
   ⟨"resolve", "Print a principal's effective start nodes", [principalOption, kindOption]⟩,
   ⟨"check", "Check whether a principal may access a path", [principalOption, kindOption, pathOption]⟩]

def subcommandNames : List String :=
  subcommands.map Subcommand.name

/-- The name under which a command reports what is wrong with its arguments. -/
def Subcommand.program (c : Subcommand) : String :=
  Command.program ++ " " ++ c.name

/-- What the program is asked to do. An option that is given without a value has none here. -/
inductive Task where
  | addNode (kind : Option Hierarchy) (id parent : Option NodeId)
  | trash (kind : Option Hierarchy) (id : Option NodeId)
  | resolve (kind : Option Hierarchy) (principalFile : Option String)
  | check (kind : Option Hierarchy) (principalFile path : Option String)
  deriving DecidableEq, Repr

def Task.kind : Task → Option Hierarchy
  | .addNode kind _ _ => kind
  | .trash kind _ => kind
  | .resolve kind _ => kind
  | .check kind _ _ => kind

def Task.name : Task → String
  | .addNode _ _ _ => "add-node"
  | .trash _ _ => "trash"
  | .resolve _ _ => "resolve"
  | .check _ _ _ => "check"

end StartNodes.Command
