import StartNodes.Validation.Value
import StartNodes.Cache.Timeout
import StartNodes.Text.FileName
import StartNodes.Text.Utf8

/-!
Settings: read from environment variables and from given values, which win over the variables. The names of both are
matched in any case. What is neither given nor set has a default. Settings do not change once they are made.
-/

namespace StartNodes

open Validation Text

structure Settings where
  logLevel : String := "INFO"
  logFile : Option String := none
  /-- How long a caller waits for a principal's lock. -/
  cacheLockTimeout : Decimal.Binary64 := Decimal.Binary64.ofInt (-1)
  /-- The group whose members may see sensitive data. -/
  sensitiveDataGroupAlias : String := "sensitiveData"
  /-- The directory that holds the snapshot. -/
  dataDir : String := "data"
  deriving DecidableEq, Repr

/-- Environment variables, later ones winning over earlier ones of the same name. -/
abbrev Environment := List (String × String)

inductive VariableError where
  /-- The name or the value has no octets. -/
  | unencodable (u : Utf8.Unencodable)
  /-- The name or the value holds the character of code point zero. -/
  | nullByte
  /-- The name holds an equals sign. -/
  | equalsSign
  | emptyName
  deriving DecidableEq, Repr

def VariableError.message : VariableError → String
  | .unencodable u => u.message
  | .nullByte => "embedded null byte"
  | .equalsSign => "illegal environment variable name"
  | .emptyName => "[Errno 22] Invalid argument"

namespace Environment

/-- What a variable is known by, or is set to: the octets of a text. -/
def octets (s : String) : Except VariableError String :=
  match Utf8.unencodableName? s with
  | some u => .error (.unencodable u)
  | none => .ok (Utf8.sameName s)

/-- Why a variable cannot have a name and a value, both of which have octets. -/
def refusal? (name value : String) : Option VariableError :=
  if name.toList.contains '\x00' || value.toList.contains '\x00' then some .nullByte
  else if name.toList.contains '=' then some .equalsSign
  else if name.isEmpty then some .emptyName
  else none

def put (env : Environment) (name value : String) : Except VariableError Environment := do
  let name ← octets name
  let value ← octets value
  match refusal? name value with
  | some e => .error e
  | none =>
      return if env.any fun v => v.1 == name then
        env.map fun v => if v.1 == name then (name, value) else v
      else env ++ [(name, value)]

def unset (env : Environment) (name : String) : Except VariableError Environment := do
  let name ← octets name
  return env.filter fun v => v.1 != name

end Environment

namespace Settings

/-- How the names of the variables begin. -/
def variableStem : String := "COREASON_SCOPE_"

def logLevels : List String := ["TRACE", "DEBUG", "INFO", "SUCCESS", "WARNING", "ERROR", "CRITICAL"]

def fieldNames : List String :=
  ["log_level", "log_file", "cache_lock_timeout", "sensitive_data_group_alias", "data_dir"]

/-- One of the log levels. -/
def logLevelOf : Json → Checked String
  | .str s =>
      if Text.hasHalf s then .fail .notUnicode
      else if logLevels.contains s then .ok s
      else .fail (.noneOf logLevels)
  | _ => .fail (.noneOf logLevels)

def fileNameOf : Json → Checked String
  | .str s => .ok (Text.FileName.normal s)
  | _ => .fail .notPath

def optionalFileNameOf : Json → Checked (Option String)
  | .null => .ok none
  | value => (fileNameOf value).map some

def timeoutRule : String := "cache_lock_timeout must be -1 (wait forever) or a non-negative number of seconds"

def timeoutOf (value : Json) : Checked Decimal.Binary64 :=
  match number value with
  | .ok x => if (LockTimeout.seconds x).isAllowed then .ok x else .fail (.rule timeoutRule)
  | .error e => .error e

/-- The small form of a letter, where it is an ASCII letter. The Kelvin sign is a K; no other letter outside ASCII has
such a form. -/
def small (c : Char) : Char :=
  if c == '\u212a' then 'k' else c.toLower

/-- Whether a name is a given ASCII name in any case. -/
def isName (name asciiName : String) : Bool :=
  name.map small == asciiName.map small

/-- The value of the variable for a field, if it is set; of several that differ in case the last counts. -/
def valueOf? (env : Environment) (field : String) : Option String :=
  (env.reverse.find? fun v => isName v.1 (variableStem ++ field)).map Prod.snd

/-- The value given for a field: the first under its name in any case. -/
def givenFor? (given : List (String × Json)) (field : String) : Option Json :=
  (given.find? fun m => isName m.1 field).map Prod.snd

/-- What is given or set for the fields. -/
def gather (env : Environment) (given : List (String × Json)) : List (String × Json) :=
  fieldNames.filterMap fun field =>
    match givenFor? given field with
    | some value => some (field, value)
    | none => (valueOf? env field).map fun value => (field, Json.str value)

/-- Makes settings from an environment and given values. -/
def load (env : Environment) (given : List (String × Json) := []) : Except Failure Settings :=
  let members := gather env given
  let absent : Settings := {}
  let settings := (optional members "log_level" absent.logLevel logLevelOf).map Settings.mk
  let settings := Checked.apply settings (optional members "log_file" absent.logFile optionalFileNameOf)
  let settings := Checked.apply settings (optional members "cache_lock_timeout" absent.cacheLockTimeout timeoutOf)
  let settings := Checked.apply settings
    (optional members "sensitive_data_group_alias" absent.sensitiveDataGroupAlias string)
  let settings := Checked.apply settings (optional members "data_dir" absent.dataDir fileNameOf)
  settings.named "ScopeSettings"

/-- Whether a name may be that of a field. A name with an underscore in front is none. -/
def isFieldName (name : String) : Bool :=
  name.toList.head? != some '_'

/-- Gives a name another value. Every name that may be a field's is refused; a value under any other name is no setting,
and the settings stay as they are. -/
def assign (s : Settings) (name : String) : Except Failure Settings :=
  if isFieldName name then
    .error ⟨"ScopeSettings", [{ fault := .frozen, place := [.field (Text.replaceHalves name)] }]⟩
  else .ok s

end Settings

end StartNodes
