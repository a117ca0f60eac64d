import StartNodes.Validation.Value
import StartNodes.Principal
import StartNodes.Json.Reader

/-!
Making principals, groups and entity paths from given values.
-/

namespace StartNodes

open Validation

/-- The rules for reading a record from a JSON text. -/
def Validation.textRules : Json.Rules := ⟨200, false, some Decimal.maxWholeDigits⟩

/-- Makes a record from a JSON text. -/
def Validation.ofText {α : Type} (name : String) (ofJson : Origin → Json → Checked α) (text : String) :
    Except Failure α :=
  if Text.hasHalf text then .error ⟨name, [{ fault := .notUnicode }]⟩
  else
    match Json.read textRules text with
    | .error _ => .error ⟨name, [{ fault := .notJson }]⟩
    | .ok value => (ofJson .text value).named name

namespace EntityPath

def check (origin : Origin) : Json → Checked EntityPath :=
  record origin "EntityPath" fun members =>
    Checked.apply ((required members "id" integer).map EntityPath.mk) (required members "path" string)

def ofJson (value : Json) : Except Failure EntityPath :=
  (check .data value).named "EntityPath"

def ofText (text : String) : Except Failure EntityPath :=
  Validation.ofText "EntityPath" check text

end EntityPath

namespace UserGroup

def check (origin : Origin) : Json → Checked UserGroup :=
  record origin "UserGroup" fun members =>
    let group := (required members "alias" string).map GroupWith.mk
    let group := Checked.apply group (optional members "name" "" string)
    let group := Checked.apply group (optional members "start_content_id" none optionalInteger)
    Checked.apply group (optional members "start_media_id" none optionalInteger)

def ofJson (value : Json) : Except Failure UserGroup :=
  (check .data value).named "UserGroup"

def ofText (text : String) : Except Failure UserGroup :=
  Validation.ofText "UserGroup" check text

end UserGroup

namespace Principal

def check (origin : Origin) : Json → Checked Principal :=
  record origin "Principal" fun members =>
    let principal := (required members "user_id" integer).map PrincipalWith.mk
    let principal := Checked.apply principal (optional members "name" "" string)
    let principal := Checked.apply principal (optional members "groups" [] (list origin (UserGroup.check origin)))
    let principal := Checked.apply principal (optional members "start_content_ids" [] (list origin integer))
    Checked.apply principal (optional members "start_media_ids" [] (list origin integer))

def ofJson (value : Json) : Except Failure Principal :=
  (check .data value).named "Principal"

def ofText (text : String) : Except Failure Principal :=
  Validation.ofText "Principal" check text

end Principal

end StartNodes
