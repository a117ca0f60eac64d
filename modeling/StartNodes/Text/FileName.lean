/-!
File names in normal form: repeated slashes, slashes at the end and components that are a single point
vanish. One slash at the start stays, and so do exactly two; three or more count as one. The empty name is
a single point.
-/

namespace StartNodes.Text.FileName

/-- The slashes that a normal form starts with, and the rest of the name. -/
def splitAnchor (cs : List Char) : List Char × List Char :=
  let rest := cs.dropWhile (· == '/')
  let slashes := cs.length - rest.length
  (if slashes = 0 then [] else if slashes = 2 then ['/', '/'] else ['/'], rest)

def components (cs : List Char) : List (List Char) :=
  (cs.splitOn '/').filter fun part => !part.isEmpty && part != ['.']

/-- The normal form of a name. -/
def normal (name : String) : String :=
  let (anchor, rest) := splitAnchor name.toList
  let text := anchor ++ ['/'].intercalate (components rest)
  String.ofList (if text.isEmpty then ['.'] else text)

def join (directory name : String) : String :=
  normal (directory ++ "/" ++ name)

end StartNodes.Text.FileName
