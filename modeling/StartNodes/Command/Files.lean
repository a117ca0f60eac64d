import StartNodes.Text.FileName
import StartNodes.Text.Quoted
import StartNodes.Text.Utf8

/-!
The files that a command works on: a working directory with files and with the directories that hold them. A name is known
by its octets. It is followed component by component from the working directory, and every component but the last has to
lead to a directory; two points lead one step up. A name is too long as a whole, or when a component that is too long is
reached.
-/

namespace StartNodes.Command

open Text

/-- Where a file or a directory is: the components on the way to it, none of which leads back. At the start, two points
lead out of the working directory, and a slash to the top of all directories. -/
abbrev Place := List String

/-- The place one step up. There is none above the top. -/
def Place.up (place : Place) : Place :=
  match place.getLast? with
  | none => [".."]
  | some ".." => place ++ [".."]
  | some "/" => place
  | some _ => place.dropLast

/-- A working directory. -/
structure Files where
  /-- The files by their places. -/
  files : List (Place × List UInt8) := []
  /-- The directories that were made. -/
  directories : List Place := []

inductive FileError where
  | missing (name : String)
  | isDirectory (name : String)
  | notDirectory (name : String)
  | alreadyThere (name : String)
  | tooLong (name : String)
  /-- The name holds the character of code point zero. -/
  | badName
  /-- The name has no octets. -/
  | unencodable (u : Utf8.Unencodable)
  deriving DecidableEq, Repr

def FileError.message : FileError → String
  | .missing name => "[Errno 2] No such file or directory: " ++ quote name
  | .isDirectory name => "[Errno 21] Is a directory: " ++ quote name
  | .notDirectory name => "[Errno 20] Not a directory: " ++ quote name
  | .alreadyThere name => "[Errno 17] File exists: " ++ quote name
  | .tooLong name => "[Errno 36] File name too long: " ++ quote name
  | .badName => "embedded null byte"
  | .unencodable u => u.message

/-- What a name leads to. -/
inductive Found where
  | file (octets : List UInt8)
  | directory
  | missing
  /-- A file stands where a directory would have to be. -/
  | blocked
  /-- The name, or a component of it, is too long. -/
  | tooLong

/-- How many octets a component of a name may have. -/
def maxComponent : Nat := 255

def maxName : Nat := 4095

namespace Files

/-- Where the following of a name starts, and its components. -/
def way (name : String) : Place × List String :=
  let (anchor, rest) := FileName.splitAnchor (Utf8.sameName (FileName.normal name)).toList
  (if anchor.isEmpty then [] else ["/"], (FileName.components rest).map String.ofList)

/-- Whether there is a directory at a place. Those above the working directory are there. -/
def hasDirectory (fs : Files) (place : Place) : Bool :=
  place.all (· == "..") || place == ["/"] || fs.directories.contains place

def entryAt (fs : Files) (place : Place) : Found :=
  match fs.files.lookup place with
  | some octets => .file octets
  | none => if fs.hasDirectory place then .directory else .missing

def follow (fs : Files) (place : Place) : List String → Found
  | [] => fs.entryAt place
  | step :: rest =>
      match fs.entryAt place with
      | .directory =>
          if step == ".." then follow fs place.up rest
          else if maxComponent < Utf8.size step then .tooLong
          else follow fs (place ++ [step]) rest
      | .file _ => .blocked
      | found => found

def find (fs : Files) (name : String) : Found :=
  if maxName < Utf8.size (Utf8.sameName (FileName.normal name)) then .tooLong
  else fs.follow (way name).1 (way name).2

def addDirectory (fs : Files) (place : Place) : Files :=
  if fs.hasDirectory place then fs else { fs with directories := fs.directories ++ [place] }

/-- The files with a file at a place, which takes the place of one that is there. -/
def addFile (fs : Files) (place : Place) (octets : List UInt8) : Files :=
  { fs with files := fs.files.filter (fun file => file.1 != place) ++ [(place, octets)] }

/-- Goes along components from a place and makes the directories that are not there; gives the place at the end. -/
def goAlong (fs : Files) (place : Place) : List String → Files × Place
  | [] => (fs, place)
  | step :: rest =>
      if step == ".." then goAlong fs place.up rest
      else goAlong (fs.addDirectory (place ++ [step])) (place ++ [step]) rest

/-- Puts a file at a name and makes the directories on the way to it. -/
def put (fs : Files) (name : String) (octets : List UInt8) : Files :=
  let (start, steps) := way name
  let (fs, place) := fs.goAlong start steps.dropLast
  fs.addFile (place ++ steps.getLast?.toList) octets

/-- Files put at their names, one after the other. -/
def ofList (files : List (String × List UInt8)) : Files :=
  files.foldl (fun fs file => fs.put file.1 file.2) {}

def read (fs : Files) (name : String) : Except FileError (List UInt8) :=
  let name := FileName.normal name
  match Utf8.unencodableName? name with
  | some u => .error (.unencodable u)
  | none =>
      if name.toList.contains '\x00' then .error .badName
      else
        match fs.find name with
        | .file octets => .ok octets
        | .directory => .error (.isDirectory name)
        | .missing => .error (.missing name)
        | .blocked => .error (.notDirectory name)
        | .tooLong => .error (.tooLong name)

/-- Makes a directory and those on the way to it, unless it is there. -/
def makeDirectory (fs : Files) (name : String) : Except FileError Files :=
  match fs.find name with
  | .file _ => .error (.alreadyThere name)
  | .directory => .ok fs
  | _ => .ok (fs.goAlong (way name).1 (way name).2).1

def write (fs : Files) (name : String) (octets : List UInt8) : Except FileError Files :=
  match fs.find name with
  | .directory => .error (.isDirectory name)
  | _ => .ok (fs.put name octets)

end Files

end StartNodes.Command
