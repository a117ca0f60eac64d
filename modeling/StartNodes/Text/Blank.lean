/-!
Blank characters: the code points with the property White_Space of the Unicode standard. They are
stripped from both ends of a number's text.
-/

namespace StartNodes.Text

/-- A character with the property White_Space. -/
def isBlank (c : Char) : Bool :=
  let n := c.toNat
  (0x09 ≤ n && n ≤ 0x0d) || n == 0x20 || n == 0x85 || n == 0xa0 || n == 0x1680 || (0x2000 ≤ n && n ≤ 0x200a)
    || n == 0x2028 || n == 0x2029 || n == 0x202f || n == 0x205f || n == 0x3000

def stripRight (cs : List Char) : List Char :=
  (cs.reverse.dropWhile isBlank).reverse

def strip (cs : List Char) : List Char :=
  stripRight (cs.dropWhile isBlank)

end StartNodes.Text
