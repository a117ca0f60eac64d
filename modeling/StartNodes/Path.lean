import StartNodes.NodeName

/-!
Path texts: the chain of node ids from the root of a hierarchy down to a node, joined by commas. Whether
one path lies under another is decided on the texts themselves, component by component, so that
`-1,123` is not under `-1,12`.
-/

namespace StartNodes.Path

open Decimal

def delimiter : Char := ','

/-- The path of every root. -/
def root : String := "-1"

/-- Whether a path is a strict descendant of another: it continues the other's text with a delimiter. -/
def isUnder (candidate ancestor : String) : Bool :=
  (ancestor.toList ++ [delimiter]).isPrefixOf candidate.toList

/-- The text of a chain of nodes, each as its name is spelled, however long the names are. -/
def join {ι : Type} [NodeName ι] (names : List ι) : String :=
  String.ofList ([delimiter].intercalate (names.map NodeName.letters))

/-- Writes the path of a chain of nodes; refused if one of them has a name that is too long. -/
def write {ι : Type} [NodeName ι] (names : List ι) : Except WritingError String :=
  if names.all NodeName.isWritable then .ok (join names) else .error .tooLong

def components (path : String) : List (List Char) :=
  path.toList.splitOn delimiter

/-- The chain of nodes that a path denotes; refused at the first component that is not an integer. -/
def ids (path : String) : Except NumeralError (List NodeId) :=
  (components path).mapM readChars

def bin (kind : Hierarchy) : String :=
  join [rootId, kind.binId]

end StartNodes.Path
