import StartNodes.Cache.Invalidation
import StartNodes.Directory.Snapshot
import StartNodes.Scope.Profile
import StartNodes.Settings
import StartNodes.Validation.Principal

/-!
The scope service: a source of paths, an optional cache, named principals and settings. Whatever is asked of it
may fail, and what it has done up to then stays done. Every question to the source of paths is recorded.

Of what is logged on the way nothing is said, and messages have their numbers in full; only an edit fails of a text that
cannot be written.
-/

namespace StartNodes

/-- A question to a source of paths. -/
structure Question where
  kind : Hierarchy
  asked : List Item

structure Service where
  source : PathSource := .trees .seeded
  cache : Option (Cache Json) := none
  /-- The questions to the source, in order. -/
  questions : List Question := []
  /-- The hierarchy in which questions about content are answered. -/
  contentPlace : Hierarchy := .content
  /-- The hierarchy in which questions about media are answered. -/
  mediaPlace : Hierarchy := .media
  principals : List (String × Profile) := []
  environment : Environment := []
  /-- The settings, once they have been made. -/
  settings : Option Settings := none

inductive ServiceError where
  | lookup (e : LookupError)
  | lock (e : LockError)
  | access (e : AccessError)
  | edit (r : Trees.Refusal)
  | snapshot (e : SnapshotError)
  | invalid (f : Validation.Failure)
  /-- The number is no timeout. -/
  | timeout (t : LockTimeout)
  /-- A factory failed with a text. -/
  | factory (text : String)
  | unknownPrincipal (name : String)
  /-- A stored value cannot be used as start nodes. -/
  | unusable
  /-- A stored value cannot be emptied. -/
  | notEmptied
  /-- A text has no octets, and a file cannot hold it. -/
  | unencodable (u : Text.Utf8.Unencodable)
  | variable (e : VariableError)
  /-- A timeout is greater than every double. -/
  | noDouble
  /-- A principal is needed and none is given. -/
  | noPrincipal
  /-- There is no cache. -/
  | noCache
  /-- There is no cache that has a size or holds anything. -/
  | noHoldings
  /-- The source has no trees. -/
  | noTrees

namespace SnapshotError

def message : SnapshotError → String
  | .text (.longInteger digits) => (Decimal.NumeralError.tooLong digits).message
  | .missingKey key => Text.quote key
  | .nullNode => "None cannot be a node"
  | _ => ""

end SnapshotError

namespace ServiceError

def message : ServiceError → String
  | .lookup e => e.message
  | .lock e => e.message
  | .access e => e.message
  | .edit r => r.message
  | .snapshot e => e.message
  | .invalid f => f.summary
  | .timeout t => s!"lock_timeout must be -1 or non-negative, got {t.shown}"
  | .factory text => text
  | .unknownPrincipal name => Text.quote name
  | .unusable => ""
  | .notEmptied => ""
  | .unencodable u => u.message
  | .variable e => e.message
  | .noDouble => "int too large to convert to float"
  | .noPrincipal => ""
  | .noCache => ""
  | .noHoldings => ""
  | .noTrees => ""

def ofStored : StoredError → ServiceError
  | .unusable => .unusable
  | .access e => .access e

end ServiceError

/-- What is asked of the service: an answer or a refusal, and the service afterwards. -/
abbrev ServiceM := ExceptT ServiceError (StateM Service)

namespace Service

/-- The hierarchy in which questions about a hierarchy are answered. -/
def place (s : Service) : Hierarchy → Hierarchy
  | .content => s.contentPlace
  | .media => s.mediaPlace

/-- Runs what is asked. -/
def perform {α : Type} (x : ServiceM α) (s : Service) : Except ServiceError α × Service :=
  (x.run.run s : Id _)

/-- An answer, or the refusal that stands in its place. -/
def answer {α E : Type} (lift : E → ServiceError) : Except E α → ServiceM α
  | .ok a => pure a
  | .error e => throw (lift e)

/-- Has questions about content answered in the first of two hierarchies, and questions about media in the second. -/
def redirect (first second : Hierarchy) : ServiceM Unit :=
  modify fun s => { s with contentPlace := first, mediaPlace := second }

/-! ### Settings -/

/-- The settings; made from the environment when they are first needed. -/
def currentSettings : ServiceM Settings := do
  let s ← get
  match s.settings with
  | some settings => return settings
  | none =>
      let settings ← answer .invalid (Settings.load s.environment)
      modify fun s => { s with settings := some settings }
      return settings

/-- A timeout: the given one, or that of the settings. -/
def timeoutFor (given : Option LockTimeout) : ServiceM LockTimeout := do
  let timeout ← match given with
    | some t => pure t
    | none => return .seconds (← currentSettings).cacheLockTimeout
  if timeout.isAllowed then return timeout else throw (.timeout timeout)

/-- Puts another environment in place. The settings stay as they are once they have been made. -/
def replaceEnvironment (change : Environment → Except VariableError Environment) : ServiceM Unit := do
  let env ← answer .variable (change (← get).environment)
  modify fun s => { s with environment := env }

def setVariable (name value : String) : ServiceM Unit :=
  replaceEnvironment fun env => env.put name value

def unsetVariable (name : String) : ServiceM Unit :=
  replaceEnvironment fun env => env.unset name

/-- Has the settings made anew when they are next needed. -/
def forgetSettings : ServiceM Unit :=
  modify fun s => { s with settings := none }

/-- Puts an empty cache in place, and each kind of question back in its own hierarchy. -/
def replaceCache (given : Option LockTimeout) : ServiceM LockTimeout := do
  let timeout ← timeoutFor given
  modify fun s =>
    { s with
      cache := some (match s.cache with
        | some c => c.renew timeout
        | none => Cache.empty timeout) }
  redirect .content .media
  return timeout

/-- Puts an empty cache in place and gives its timeout as a double. The cache is in place also where the timeout
is greater than every double. -/
def renewCache (given : Option LockTimeout) : ServiceM Decimal.Binary64 := do
  match (← replaceCache given).toBinary64? with
  | some x => return x
  | none => throw .noDouble

/-! ### Principals -/

def principal (name : String) : ServiceM Profile := do
  match (← get).principals.lookup name with
  | some p => return p
  | none => throw (.unknownPrincipal name)

/-- Names a principal; a name that is there is given to the new one. -/
def putPrincipal (name : String) (p : Profile) : ServiceM Unit :=
  modify fun s => { s with principals := (name, p) :: s.principals.filter fun row => row.1 != name }

def updatePrincipal (name : String) (change : Profile → Profile) : ServiceM Unit := do
  putPrincipal name (change (← principal name))

/-! ### The directory -/

def trees : ServiceM Trees := do
  match (← get).source with
  | .trees t => return t
  | .fixed _ => throw .noTrees

def setTrees (t : Trees) : ServiceM Unit :=
  modify fun s => { s with source := .trees t }

def edit (kind : Hierarchy) (e : Edit Item) : ServiceM Unit := do
  let (outcome, t) := (← trees).edit kind e
  setTrees t
  answer .edit outcome

/-- The path of what names a node. -/
def path? (kind : Hierarchy) (item : Item) : ServiceM (Option String) := do
  answer .lookup ((← trees).items.pathOf? kind item)

/-- Loads a snapshot; what it puts in place before it is refused stays in place. -/
def loadSnapshot (text : String) : ServiceM Unit := do
  match Text.Utf8.unencodable? text with
  | some u => throw (.unencodable u)
  | none =>
      let (refusal, t) := (← trees).load text
      setTrees t
      match refusal with
      | some e => throw (.snapshot e)
      | none => return ()

/-- Saves the trees and loads them into new ones, which take their place. -/
def reload : ServiceM Unit := do
  let (refusal, t) := Trees.seeded.load (← trees).save
  match refusal with
  | some e => throw (.snapshot e)
  | none =>
      setTrees t
      redirect .content .media

def record (kind : Hierarchy) (asked : List Item) : ServiceM Unit :=
  modify fun s => { s with questions := s.questions ++ [⟨kind, asked⟩] }

def resolve (kind : Hierarchy) (items : List Item) : ServiceM (PathTable Item) := do
  record kind items
  answer .lookup ((← get).source.lookUp kind items)

def resolveIds (kind : Hierarchy) (ids : List NodeId) : ServiceM (PathTable NodeId) := do
  record kind (ids.map Item.ofId)
  answer .lookup ((← get).source.paths kind ids)

end Service

end StartNodes
