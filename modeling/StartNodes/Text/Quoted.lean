import StartNodes.Text.CodePoint
import StartNodes.Text.Printable

/-!
Quoted texts, as error messages show them: between single quotes, or between double quotes if the text
holds a single quote and no double one, with the quote, the backslash, every character that is not printable
and every half of a surrogate pair escaped.
-/

namespace StartNodes.Text

/-- The digits of `n` to base sixteen, in lower case, with zeros in front up to `width` digits. -/
def hex (width n : Nat) : List Char :=
  let digits := Nat.toDigits 16 n
  List.replicate (width - digits.length) '0' ++ digits

/-- One character of a quoted text: the shortest escape that fits, where one is needed. -/
def quotedChar (quote c : Char) : List Char :=
  if c == quote || c == '\\' then ['\\', c]
  else if c == '\n' then ['\\', 'n']
  else if c == '\r' then ['\\', 'r']
  else if c == '\t' then ['\\', 't']
  else if isPrintable c then [c]
  else if c.toNat ≤ 0xff then '\\' :: 'x' :: hex 2 c.toNat
  else if c.toNat ≤ 0xffff then '\\' :: 'u' :: hex 4 c.toNat
  else '\\' :: 'U' :: hex 8 c.toNat

def quotedCode (quote : Char) (code : Nat) : List Char :=
  if isHalf code then '\\' :: 'u' :: hex 4 code else quotedChar quote (Char.ofNat code)

/-- The quote that stands at both ends of a quoted text. -/
def quoteOf (codes : List Nat) : Char :=
  if codes.contains '\''.toNat && !codes.contains '"'.toNat then '"' else '\''

/-- A text between quotes, with escapes. -/
def quoted (s : String) : List Char :=
  let codes := codePoints s
  let quote := quoteOf codes
  quote :: codes.flatMap (quotedCode quote) ++ [quote]

/-- A text between quotes, with escapes, as a string. -/
def quote (s : String) : String :=
  String.ofList (quoted s)

/-- A text as a plain string, in which only halves of surrogate pairs are escaped. -/
def toPlain (s : String) : String :=
  String.ofList ((codePoints s).flatMap fun code => if isHalf code then quotedCode '"' code else [Char.ofNat code])

end StartNodes.Text
