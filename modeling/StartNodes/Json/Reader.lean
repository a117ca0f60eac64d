import StartNodes.Json.Value
import StartNodes.Decimal.Reading

/-!
Reading JSON texts, strictly: no leading zeros, trailing commas, comments or raw control characters, and
nothing but blanks behind the value. The words `NaN`, `Infinity` and `-Infinity` are numbers. Of repeated
keys the last value wins. Readers differ in how deep values may nest and in whether half of a surrogate
pair may stand alone, and some bound the whole part of every number.
-/

namespace StartNodes.Json

open Decimal Text

/-- What readers differ in. -/
structure Rules where
  /-- How many arrays and objects may enclose a value. -/
  maxDepth : Nat
  /-- Whether an escape may name half of a surrogate pair alone. -/
  loneHalves : Bool
  /-- How many digits the whole part of a number may have, if it is bounded. -/
  maxWhole : Option Nat

inductive ReadError where
  /-- The text is no JSON text. -/
  | malformed
  /-- Arrays and objects nest too deep. -/
  | tooDeep
  /-- A whole number has too many digits. -/
  | longInteger (digits : Nat)
  deriving DecidableEq, Repr

/-- A blank between the parts of a text. -/
def isSpace (c : Char) : Bool :=
  c == ' ' || c == '\t' || c == '\n' || c == '\r'

def skipSpace (cs : List Char) : List Char :=
  cs.dropWhile isSpace

/-! ### Strings -/

/-- A part of a string: a character of its text, or the code point that an escape names. -/
inductive Piece where
  | char (c : Char)
  | code (n : Nat)

def hexValue? (c : Char) : Option Nat :=
  if '0' ≤ c && c ≤ '9' then some (c.toNat - 48)
  else if 'a' ≤ c && c ≤ 'f' then some (c.toNat - 87)
  else if 'A' ≤ c && c ≤ 'F' then some (c.toNat - 55)
  else none

/-- The character that a short escape stands for. -/
def escaped? : Char → Option Char
  | '"' => some '"'
  | '\\' => some '\\'
  | '/' => some '/'
  | 'b' => some '\x08'
  | 'f' => some '\x0c'
  | 'n' => some '\n'
  | 'r' => some '\r'
  | 't' => some '\t'
  | _ => none

/-- Reads the rest of a string, up to its closing quote; `acc` holds the parts before, last first. -/
def readPieces : List Char → List Piece → Except ReadError (List Piece × List Char)
  | '"' :: rest, acc => .ok (acc.reverse, rest)
  | '\\' :: 'u' :: a :: b :: c :: d :: rest, acc =>
      match hexValue? a, hexValue? b, hexValue? c, hexValue? d with
      | some a, some b, some c, some d => readPieces rest (.code (((a * 16 + b) * 16 + c) * 16 + d) :: acc)
      | _, _, _, _ => .error .malformed
  | '\\' :: e :: rest, acc =>
      match escaped? e with
      | some c => readPieces rest (.char c :: acc)
      | none => .error .malformed
  | c :: rest, acc => if c.toNat < 0x20 then .error .malformed else readPieces rest (.char c :: acc)
  | [], _ => .error .malformed

/-- The parts of a string, where a first half that an escape names and a second one behind it are one code point; `acc`
holds the parts before, last first. -/
def joinPieces : List Piece → List Piece → List Piece
  | [], acc => acc.reverse
  | .code low :: rest, .code high :: acc =>
      joinPieces rest
        (if isHighHalf high && isLowHalf low then .code (joinHalves high low) :: acc
          else .code low :: .code high :: acc)
  | piece :: rest, acc => joinPieces rest (piece :: acc)

/-- Whether a part of a string is half of a surrogate pair. -/
def Piece.isHalf : Piece → Bool
  | .char _ => false
  | .code n => Text.isHalf n

def Piece.held : Piece → List Char
  | .char c => [c]
  | .code n => Text.held n

/-- Reads a string whose opening quote has been read. -/
def readString (rules : Rules) (cs : List Char) : Except ReadError (String × List Char) :=
  match readPieces cs [] with
  | .error e => .error e
  | .ok (pieces, rest) =>
      let pieces := joinPieces pieces []
      if pieces.any Piece.isHalf && !rules.loneHalves then .error .malformed
      else .ok (String.ofList (pieces.flatMap Piece.held), rest)

/-! ### Numbers -/

/-- A text without a word at its start, if it starts with it. -/
def afterWord? (word : String) (cs : List Char) : Option (List Char) :=
  let letters := word.toList
  if letters.isPrefixOf cs then some (cs.drop letters.length) else none

/-- The digits behind the point of a number, with the point, and what follows. -/
def splitPart (cs : List Char) : List Char × List Char :=
  match cs with
  | '.' :: rest =>
      let digits := rest.takeWhile Char.isDigit
      if digits.isEmpty then ([], cs) else ('.' :: digits, rest.dropWhile Char.isDigit)
  | _ => ([], cs)

/-- The exponent of a number, with its letter, and what follows. -/
def splitExponent (cs : List Char) : List Char × List Char :=
  match cs with
  | e :: rest =>
      if e == 'e' || e == 'E' then
        let (sign, rest) := match rest with
          | '+' :: rest => (['+'], rest)
          | '-' :: rest => (['-'], rest)
          | rest => ([], rest)
        let digits := rest.takeWhile Char.isDigit
        if digits.isEmpty then ([], cs) else (e :: sign ++ digits, rest.dropWhile Char.isDigit)
      else ([], cs)
  | [] => ([], cs)

/-- Reads a number. What is bounded is the digits of its whole part; a minus sign in front of them does not count. -/
def readNumber (rules : Rules) (cs : List Char) : Except ReadError (Json × List Char) :=
  let (negative, unsigned) := match cs with
    | '-' :: rest => (true, rest)
    | rest => (false, rest)
  let whole := match unsigned with
    | '0' :: _ => ['0']
    | rest => rest.takeWhile Char.isDigit
  if whole.isEmpty then .error .malformed
  else if rules.maxWhole.any (· < whole.length) then .error .malformed
  else
    let (part, rest) := splitPart (unsigned.drop whole.length)
    let (exponent, rest) := splitExponent rest
    if part.isEmpty && exponent.isEmpty then
      if whole.length > maxDigits then .error (.longInteger whole.length)
      else
        let magnitude : Int := digitsValue whole
        .ok (.int (if negative then -magnitude else magnitude), rest)
    else
      match readUnsigned? negative (whole ++ part ++ exponent) with
      | some x => .ok (.float (Binary64.ofFraction x), rest)
      | none => .error .malformed

/-! ### Values -/

/-- Reads a value that is neither a string, an array nor an object. -/
def readPlain (rules : Rules) (cs : List Char) : Except ReadError (Json × List Char) :=
  match afterWord? "null" cs, afterWord? "true" cs, afterWord? "false" cs with
  | some rest, _, _ => .ok (.null, rest)
  | _, some rest, _ => .ok (.bool true, rest)
  | _, _, some rest => .ok (.bool false, rest)
  | none, none, none =>
      match afterWord? "NaN" cs, afterWord? "Infinity" cs, afterWord? "-Infinity" cs with
      | some rest, _, _ => .ok (.float .nan, rest)
      | _, some rest, _ => .ok (.float (.infinite false), rest)
      | _, _, some rest => .ok (.float (.infinite true), rest)
      | none, none, none => readNumber rules cs

mutual

/-- Reads a value; `depth` counts the arrays and objects around it. -/
def readValue (rules : Rules) : Nat → Nat → List Char → Except ReadError (Json × List Char)
  | 0, _, _ => .error .malformed
  | fuel + 1, depth, cs =>
      if rules.maxDepth < depth then .error .tooDeep
      else
        match skipSpace cs with
        | '"' :: rest => (readString rules rest).map fun (s, rest) => (.str s, rest)
        | '[' :: rest =>
            match skipSpace rest with
            | ']' :: rest => .ok (.arr [], rest)
            | rest => readItems rules fuel (depth + 1) rest []
        | '\x7b' :: rest =>
            match skipSpace rest with
            | '\x7d' :: rest => .ok (.obj [], rest)
            | rest => readMembers rules fuel (depth + 1) rest []
        | rest => readPlain rules rest

/-- Reads the rest of an array, of which `acc` holds the items before, last first. -/
def readItems (rules : Rules) : Nat → Nat → List Char → List Json → Except ReadError (Json × List Char)
  | 0, _, _, _ => .error .malformed
  | fuel + 1, depth, cs, acc =>
      match readValue rules fuel depth cs with
      | .error e => .error e
      | .ok (item, rest) =>
          match skipSpace rest with
          | ',' :: rest => readItems rules fuel depth rest (item :: acc)
          | ']' :: rest => .ok (.arr (item :: acc).reverse, rest)
          | _ => .error .malformed

/-- Reads the rest of an object, of which `acc` holds the members before. -/
def readMembers (rules : Rules) :
    Nat → Nat → List Char → List (String × Json) → Except ReadError (Json × List Char)
  | 0, _, _, _ => .error .malformed
  | fuel + 1, depth, cs, acc =>
      match skipSpace cs with
      | '"' :: rest =>
          match readString rules rest with
          | .error e => .error e
          | .ok (key, rest) =>
              match skipSpace rest with
              | ':' :: rest =>
                  match readValue rules fuel depth rest with
                  | .error e => .error e
                  | .ok (value, rest) =>
                      match skipSpace rest with
                      | ',' :: rest => readMembers rules fuel depth rest (putMember acc key value)
                      | '\x7d' :: rest => .ok (.obj (putMember acc key value), rest)
                      | _ => .error .malformed
              | _ => .error .malformed
      | _ => .error .malformed

end

/-- Reads a value from the whole of a text. Every second step consumes a character, so twice the length
bounds the steps. -/
def readChars (rules : Rules) (cs : List Char) : Except ReadError Json :=
  match readValue rules (2 * cs.length + 2) 0 cs with
  | .error e => .error e
  | .ok (value, rest) => if (skipSpace rest).isEmpty then .ok value else .error .malformed

def read (rules : Rules) (s : String) : Except ReadError Json :=
  readChars rules s.toList

end StartNodes.Json
