/-!
Texts by code points. Half of a surrogate pair may stand alone in a text, although it is no character. A string holds a
text: a character stands for itself, a half is a mark with a stand-in behind it, and the mark, where a text has that
very character, is written twice, so that no text is lost in this way.
-/

namespace StartNodes.Text

/-! ### Halves -/

/-- The first half of a surrogate pair. -/
def isHighHalf (code : Nat) : Bool := 0xd800 ≤ code && code < 0xdc00

/-- The second half of a surrogate pair. -/
def isLowHalf (code : Nat) : Bool := 0xdc00 ≤ code && code < 0xe000

def isHalf (code : Nat) : Bool := isHighHalf code || isLowHalf code

theorem isHalf_iff {code : Nat} : isHalf code = true ↔ 0xd800 ≤ code ∧ code < 0xe000 := by
  simp only [isHalf, isHighHalf, isLowHalf, Bool.or_eq_true, Bool.and_eq_true, decide_eq_true_eq]
  omega

/-- The code point that a surrogate pair stands for. -/
def joinHalves (high low : Nat) : Nat := 0x10000 + (high - 0xd800) * 0x400 + (low - 0xdc00)

/-! ### Strings for texts -/

/-- Announces the stand-in of a half: the last code point, which no script uses. -/
def mark : Char := Char.ofNat 0x10ffff

/-- How far behind a half its stand-in lies, among the private code points. -/
def standInOffset : Nat := 0x101800

/-- The characters that hold a code point. -/
def held (code : Nat) : List Char :=
  if isHalf code then [mark, Char.ofNat (code + standInOffset)]
  else if code = mark.toNat then [mark, mark]
  else [Char.ofNat code]

/-- The string that holds a text. -/
def ofCodePoints (codes : List Nat) : String :=
  String.ofList (codes.flatMap held)

/-- The code point that a character stands for behind a mark. -/
def behindMark (c : Char) : Nat :=
  if isHalf (c.toNat - standInOffset) then c.toNat - standInOffset else c.toNat

/-- The code points that characters hold, behind a mark or not; `acc` holds those before, last first. -/
def readHeld : (marked : Bool) → List Char → List Nat → List Nat
  | _, [], acc => acc.reverse
  | true, c :: rest, acc => readHeld false rest (behindMark c :: acc)
  | false, c :: rest, acc => if c == mark then readHeld true rest acc else readHeld false rest (c.toNat :: acc)

/-- The code points of the text that a string holds. -/
def codePoints (s : String) : List Nat :=
  readHeld false s.toList []

/-- The string that holds the characters of a plain string. -/
def ofPlain (s : String) : String :=
  ofCodePoints (s.toList.map Char.toNat)

/-- Whether half of a surrogate pair stands alone in a text. -/
def hasHalf (s : String) : Bool :=
  (codePoints s).any isHalf

/-- A text with three replacement characters in place of each half of a surrogate pair, as many as the octets that it
would take. -/
def replaceHalves (s : String) : String :=
  ofCodePoints ((codePoints s).flatMap fun code => if isHalf code then List.replicate 3 0xfffd else [code])

/-- The texts of one code point each that make up a text. -/
def singles (s : String) : List String :=
  (codePoints s).map fun code => ofCodePoints [code]

/-- Whether code points come before others in the order of a dictionary, or are the same. -/
def inOrder : List Nat → List Nat → Bool
  | [], _ => true
  | _ :: _, [] => false
  | m :: ms, n :: ns => if m = n then inOrder ms ns else m < n

/-- Whether a text comes before another, or is the same, by their code points. -/
def precedes (a b : String) : Bool :=
  inOrder (codePoints a) (codePoints b)

end StartNodes.Text
