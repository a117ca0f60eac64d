import StartNodes.Json.Value
import StartNodes.Text.Quoted

/-!
Values as error messages show them: texts between single quotes, the words `None`, `True` and `False`, and
arrays and objects in brackets.
-/

namespace StartNodes

open Decimal Text

namespace Json

mutual

/-- A value as messages show it. -/
def shownChars : Json → List Char
  | .null => "None".toList
  | .bool b => (if b then "True" else "False").toList
  | .int n => intText n
  | .float x => x.shown.toList
  | .str s => quoted s
  | .arr items => '[' :: shownItems items ++ [']']
  | .obj members => '\x7b' :: shownMembers members ++ ['\x7d']

def shownItems : List Json → List Char
  | [] => []
  | [item] => shownChars item
  | item :: items => shownChars item ++ ',' :: ' ' :: shownItems items

def shownMember : String × Json → List Char
  | (key, value) => quoted key ++ ':' :: ' ' :: shownChars value

def shownMembers : List (String × Json) → List Char
  | [] => []
  | [member] => shownMember member
  | member :: members => shownMember member ++ ',' :: ' ' :: shownMembers members

end

mutual

/-- Whether a value can be shown: an integer with too many digits cannot, nor can what holds one. -/
def isWritable : Json → Bool
  | .int n => Decimal.isWritable n
  | .arr items => areWritable items
  | .obj members => areWritableMembers members
  | _ => true

def areWritable : List Json → Bool
  | [] => true
  | item :: items => isWritable item && areWritable items

def isWritableMember : String × Json → Bool
  | (_, value) => isWritable value

def areWritableMembers : List (String × Json) → Bool
  | [] => true
  | member :: members => isWritableMember member && areWritableMembers members

end

/-- A value as messages quote it. -/
def shown (value : Json) : String :=
  String.ofList (shownChars value)

/-- A value as messages name it: as they quote it, but texts without quotes. -/
def named : Json → String
  | .str s => s
  | value => value.shown

end Json

end StartNodes
