import StartNodes.Json.Value
import StartNodes.Text.Quoted

/-!
Writing JSON texts, in ASCII: every other character is escaped by its UTF-16 units. A text is written on one
line, or with each item and member on a line of its own, indented by its depth.
-/

namespace StartNodes

open Decimal Text

namespace Json

/-- The escape of a UTF-16 unit. -/
def unitEscape (u : Nat) : List Char :=
  '\\' :: 'u' :: hex 4 u

def escapeCodePoint (n : Nat) : List Char :=
  if n = 0x22 then ['\\', '"']
  else if n = 0x5c then ['\\', '\\']
  else if n = 0x0a then ['\\', 'n']
  else if n = 0x0d then ['\\', 'r']
  else if n = 0x09 then ['\\', 't']
  else if n = 0x0c then ['\\', 'f']
  else if n = 0x08 then ['\\', 'b']
  else if 0x20 ≤ n ∧ n ≤ 0x7e then [Char.ofNat n]
  else if n < 0x10000 then unitEscape n
  else unitEscape (0xd800 + (n - 0x10000) / 0x400) ++ unitEscape (0xdc00 + (n - 0x10000) % 0x400)

def writtenText (s : String) : List Char :=
  '"' :: (codePoints s).flatMap escapeCodePoint ++ ['"']

/-- How the parts of arrays and objects are set apart: with the given number of blanks for each level, on
lines of their own, or on one line. -/
inductive Layout where
  | oneLine
  | indented (width : Nat)

namespace Layout

/-- What stands in front of an item or a closing bracket at a depth. -/
def lineBreak : Layout → Nat → List Char
  | .oneLine, _ => []
  | .indented width, depth => '\n' :: List.replicate (width * depth) ' '

def separator : Layout → Nat → List Char
  | .oneLine, _ => [',', ' ']
  | .indented width, depth => ',' :: lineBreak (.indented width) depth

end Layout

/-- A value that is neither an array nor an object. -/
def writtenPlain : Json → List Char
  | .null => "null".toList
  | .bool b => (if b then "true" else "false").toList
  | .int n => intText n
  | .float x => x.text ⟨"NaN", "Infinity"⟩
  | .str s => writtenText s
  | .arr _ => []
  | .obj _ => []

mutual

/-- A value at a depth. -/
def writtenAt (layout : Layout) (depth : Nat) : Json → List Char
  | .arr [] => ['[', ']']
  | .arr (item :: items) =>
      '[' :: layout.lineBreak (depth + 1) ++ writtenAt layout (depth + 1) item
        ++ writtenItems layout (depth + 1) items ++ layout.lineBreak depth ++ [']']
  | .obj [] => ['\x7b', '\x7d']
  | .obj (member :: members) =>
      '\x7b' :: layout.lineBreak (depth + 1) ++ writtenMember layout (depth + 1) member
        ++ writtenMembers layout (depth + 1) members ++ layout.lineBreak depth ++ ['\x7d']
  | value => writtenPlain value

/-- The items behind the first one, each after a separator. -/
def writtenItems (layout : Layout) (depth : Nat) : List Json → List Char
  | [] => []
  | item :: items => layout.separator depth ++ writtenAt layout depth item ++ writtenItems layout depth items

def writtenMember (layout : Layout) (depth : Nat) : String × Json → List Char
  | (key, value) => writtenText key ++ ':' :: ' ' :: writtenAt layout depth value

/-- The members behind the first one, each after a separator. -/
def writtenMembers (layout : Layout) (depth : Nat) : List (String × Json) → List Char
  | [] => []
  | member :: members =>
      layout.separator depth ++ writtenMember layout depth member ++ writtenMembers layout depth members

end

def write (layout : Layout) (value : Json) : String :=
  String.ofList (writtenAt layout 0 value)

end Json

end StartNodes
