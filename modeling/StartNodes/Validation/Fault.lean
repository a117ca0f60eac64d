/-!
What is wrong with given values: each fault has a type, a wording, and the place where it was found.
-/

namespace StartNodes.Validation

/-- Where values come from. -/
inductive Origin where
  /-- Values that were built in memory. -/
  | data
  /-- Values that were read from a JSON text. -/
  | text
  deriving DecidableEq, Repr

/-- What is wrong with a value. -/
inductive Fault where
  | missing
  /-- A record was expected. -/
  | notRecord (origin : Origin) (record : String)
  /-- A list was expected. -/
  | notList (origin : Origin)
  | notString
  /-- A text that has to be read, in which half of a surrogate pair stands alone. -/
  | notUnicode
  | notInteger
  /-- A text that is no integer. -/
  | integerText
  /-- A number that is not finite, where an integer was expected. -/
  | notFinite
  /-- A number with a fractional part, where an integer was expected. -/
  | fractional
  /-- A number too large to be taken for an integer. -/
  | integerSize
  | notNumber
  /-- A text that is no number. -/
  | numberText
  /-- A value that is none of some words. -/
  | noneOf (words : List String)
  | notPath
  /-- A value that breaks a rule of its own. -/
  | rule (text : String)
  /-- A record that cannot be changed. -/
  | frozen
  /-- A text that is no JSON text. -/
  | notJson
  deriving DecidableEq, Repr

namespace Fault

def typeName : Fault → String
  | .missing => "missing"
  | .notRecord _ _ => "model_type"
  | .notList _ => "list_type"
  | .notString => "string_type"
  | .notUnicode => "string_unicode"
  | .notInteger => "int_type"
  | .integerText => "int_parsing"
  | .notFinite => "finite_number"
  | .fractional => "int_from_float"
  | .integerSize => "int_parsing_size"
  | .notNumber => "float_type"
  | .numberText => "float_parsing"
  | .noneOf _ => "literal_error"
  | .notPath => "path_type"
  | .rule _ => "value_error"
  | .frozen => "frozen_instance"
  | .notJson => "json_invalid"

/-- Words between quotes, set apart by commas, with `or` before the last. -/
def alternatives : List String → String
  | [] => ""
  | [word] => "'" ++ word ++ "'"
  | [word, last] => "'" ++ word ++ "' or '" ++ last ++ "'"
  | word :: rest => "'" ++ word ++ "', " ++ alternatives rest

def message : Fault → String
  | .missing => "Field required"
  | .notRecord .data record => "Input should be a valid dictionary or instance of " ++ record
  | .notRecord .text _ => "Input should be an object"
  | .notList .data => "Input should be a valid list"
  | .notList .text => "Input should be a valid array"
  | .notString => "Input should be a valid string"
  | .notUnicode => "Input should be a valid string, unable to parse raw data as a unicode string"
  | .notInteger => "Input should be a valid integer"
  | .integerText => "Input should be a valid integer, unable to parse string as an integer"
  | .notFinite => "Input should be a finite number"
  | .fractional => "Input should be a valid integer, got a number with a fractional part"
  | .integerSize => "Unable to parse input string as an integer, exceeded maximum size"
  | .notNumber => "Input should be a valid number"
  | .numberText => "Input should be a valid number, unable to parse string as a number"
  | .noneOf words => "Input should be " ++ alternatives words
  | .notPath => "Input is not a valid path for <class 'pathlib.Path'>"
  | .rule text => "Value error, " ++ text
  | .frozen => "Instance is frozen"
  | .notJson => "Invalid JSON"

end Fault

/-- A step from a value to one of its parts. -/
inductive Step where
  | field (name : String)
  | index (n : Nat)
  deriving DecidableEq, Repr

/-- A fault and the way to the value that has it. -/
structure Detail where
  fault : Fault
  place : List Step := []
  deriving DecidableEq, Repr

/-- The same fault, seen from a value that has the faulty one as a part. -/
def Detail.under (d : Detail) (step : Step) : Detail :=
  { d with place := step :: d.place }

/-- A record that could not be made, with all its faults in the order of its fields. -/
structure Failure where
  record : String
  details : List Detail
  deriving DecidableEq, Repr

def Failure.summary (f : Failure) : String :=
  let count := f.details.length
  s!"{count} validation error" ++ (if count = 1 then "" else "s") ++ s!" for {f.record}"

/-- A checked value, or all its faults. -/
abbrev Checked (α : Type) := Except (List Detail) α

namespace Checked

variable {α β : Type}

def fail (fault : Fault) : Checked α := .error [{ fault }]

/-- Applies a checked function to a checked value; the faults of both are kept. -/
def apply (f : Checked (α → β)) (x : Checked α) : Checked β :=
  match f, x with
  | .ok f, .ok x => .ok (f x)
  | .ok _, .error e => .error e
  | .error e, .ok _ => .error e
  | .error e, .error e' => .error (e ++ e')

/-- The faults of a part, seen from the whole. -/
def under (x : Checked α) (step : Step) : Checked α :=
  x.mapError fun details => details.map fun d => d.under step

/-- Checks the items of a list; the faults of all are kept. -/
def items {γ : Type} (check : γ → Checked α) (xs : List γ) : Checked (List α) :=
  xs.zipIdx.foldr (fun (x, n) rest => apply ((check x |>.under (.index n)).map fun a => fun as => a :: as) rest)
    (.ok [])

def named (x : Checked α) (record : String) : Except Failure α :=
  x.mapError fun details => ⟨record, details⟩

end Checked

end StartNodes.Validation
