import StartNodes.Text.CodePoint

/-!
UTF-8. Octets are refused at the first that begins no code point, or that does not continue the code point before it;
overlong forms, surrogates and code points beyond the last are refused at the octet that makes them so. A text in which
half of a surrogate pair stands alone has no octets.

Names of files and of variables are octets, whether or not these are UTF-8: a name gives each octet that belongs to no code
point as a half of its own.
-/

namespace StartNodes.Text.Utf8

/-! ### Decoding -/

inductive Reason where
  | start
  | continuation
  | truncated
  deriving DecidableEq, Repr

def Reason.message : Reason → String
  | .start => "invalid start byte"
  | .continuation => "invalid continuation byte"
  | .truncated => "unexpected end of data"

/-- Octets that are no UTF-8: the first of them, its place, and how many belong together. -/
structure Refusal where
  octet : Nat
  position : Nat
  length : Nat
  reason : Reason
  deriving DecidableEq, Repr

def hexOctet (n : Nat) : String :=
  String.ofList ((if n < 16 then ['0'] else []) ++ Nat.toDigits 16 n)

def Refusal.message (r : Refusal) : String :=
  let place :=
    if r.length = 1 then s!"byte 0x{hexOctet r.octet} in position {r.position}"
    else s!"bytes in position {r.position}-{r.position + r.length - 1}"
  s!"'utf-8' codec can't decode {place}: {r.reason.message}"

/-- The octets that may follow a first octet, and how many octets follow in all; `none` if the octet begins no
code point. -/
def follow? (first : Nat) : Option (Nat × Nat × Nat) :=
  if first < 0xc2 then none
  else if first < 0xe0 then some (0x80, 0xbf, 1)
  else if first = 0xe0 then some (0xa0, 0xbf, 2)
  else if first = 0xed then some (0x80, 0x9f, 2)
  else if first < 0xf0 then some (0x80, 0xbf, 2)
  else if first = 0xf0 then some (0x90, 0xbf, 3)
  else if first < 0xf4 then some (0x80, 0xbf, 3)
  else if first = 0xf4 then some (0x80, 0x8f, 3)
  else none

/-- How many of the octets behind a first one continue it, out of `count`; the second one lies between `low` and
`high`. -/
def continued (low high : Nat) : Nat → List Nat → Nat
  | 0, _ => 0
  | _, [] => 0
  | count + 1, n :: rest => if low ≤ n ∧ n ≤ high then 1 + continued 0x80 0xbf count rest else 0

/-- The code point of a first octet and those that continue it. -/
def codePoint (first : Nat) (rest : List Nat) : Nat :=
  let lead := match rest.length with
    | 1 => first - 0xc0
    | 2 => first - 0xe0
    | _ => first - 0xf0
  rest.foldl (fun value n => value * 64 + (n - 0x80)) lead

/-- The code point that begins with an octet, and how many octets continue it; or why none does, and how many octets
behind the first are at fault too. -/
def beginning (first : Nat) (rest : List Nat) : Except (Reason × Nat) (Nat × Nat) :=
  if first < 0x80 then .ok (first, 0)
  else
    match follow? first with
    | none => .error (.start, 0)
    | some (low, high, count) =>
        let found := continued low high count rest
        if found = count then .ok (codePoint first (rest.take count), count)
        else if rest.length = found then .error (.truncated, found)
        else .error (.continuation, found)

/-- Decodes octets from a place on; `skip` of them belong to the code point before, `acc` holds the code points before,
last first. -/
def decodeFrom : (position skip : Nat) → List Nat → List Nat → Except Refusal (List Nat)
  | _, _, [], acc => .ok acc.reverse
  | position, skip + 1, _ :: rest, acc => decodeFrom (position + 1) skip rest acc
  | position, 0, first :: rest, acc =>
      match beginning first rest with
      | .ok (code, count) => decodeFrom (position + 1) count rest (code :: acc)
      | .error (reason, more) => .error ⟨first, position, 1 + more, reason⟩

def decode (octets : List UInt8) : Except Refusal String :=
  (decodeFrom 0 0 (octets.map UInt8.toNat) []).map ofCodePoints

/-! ### Encoding -/

/-- Halves of surrogate pairs that have no octets: the first of them, its place, and the place of the last of those that
stand together. -/
structure Unencodable where
  half : Nat
  first : Nat
  last : Nat
  deriving DecidableEq, Repr

def Unencodable.message (u : Unencodable) : String :=
  let place :=
    if u.first = u.last then
      "character '\\u" ++ String.ofList (Nat.toDigits 16 u.half) ++ s!"' in position {u.first}"
    else s!"characters in position {u.first}-{u.last}"
  s!"'utf-8' codec can't encode {place}: surrogates not allowed"

/-- The first code points from a place on that have no octets, where `allowed` picks out halves that have. -/
def unencodableFrom (allowed : Nat → Bool) : (position : Nat) → List Nat → Option Unencodable
  | _, [] => none
  | position, code :: rest =>
      if isHalf code && !allowed code then some ⟨code, position, position + (rest.takeWhile isHalf).length⟩
      else unencodableFrom allowed (position + 1) rest

/-- Why a text has no octets, if it has none. -/
def unencodable? (s : String) : Option Unencodable :=
  unencodableFrom (fun _ => false) 0 (codePoints s)

/-- A half that names an octet. -/
def namesOctet (code : Nat) : Bool := 0xdc80 ≤ code && code < 0xdd00

/-- How far behind an octet the half lies that names it. -/
def octetOffset : Nat := 0xdc00

/-- The octets of a code point; a half that names an octet has that one. -/
def octetsOf (code : Nat) : List Nat :=
  if code < 0x80 then [code]
  else if code < 0x800 then [0xc0 + code / 64, 0x80 + code % 64]
  else if namesOctet code then [code - octetOffset]
  else if code < 0x10000 then [0xe0 + code / 4096, 0x80 + code / 64 % 64, 0x80 + code % 64]
  else [0xf0 + code / 262144, 0x80 + code / 4096 % 64, 0x80 + code / 64 % 64, 0x80 + code % 64]

def encode (s : String) : List UInt8 :=
  ((codePoints s).flatMap octetsOf).map UInt8.ofNat

def size (s : String) : Nat :=
  ((codePoints s).flatMap octetsOf).length

/-! ### Names -/

def unencodableName? (name : String) : Option Unencodable :=
  unencodableFrom namesOctet 0 (codePoints name)

/-- The code points of a name with the given octets; `skip` of them belong to the code point before, `acc` holds the code
points before, last first. -/
def nameFrom : (skip : Nat) → List Nat → List Nat → List Nat
  | _, [], acc => acc.reverse
  | skip + 1, _ :: rest, acc => nameFrom skip rest acc
  | 0, first :: rest, acc =>
      match beginning first rest with
      | .ok (code, count) => nameFrom count rest (code :: acc)
      | .error _ => nameFrom 0 rest ((first + octetOffset) :: acc)

/-- A name as it is given back: the same octets, with a half for an octet only where it belongs to no code point. -/
def sameName (name : String) : String :=
  ofCodePoints (nameFrom 0 ((codePoints name).flatMap octetsOf) [])

end StartNodes.Text.Utf8
