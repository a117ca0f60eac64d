import StartNodes.Command.Run

/-!
The program: reads the files that a command line names, runs it, writes the snapshot that it leaves, and prints what
it says.
-/

namespace StartNodes.Program

open Command Text

/-- The name and the names of the directories on the way to it. -/
def waypoints (name : String) : List String :=
  let (anchor, rest) := FileName.splitAnchor (FileName.normal name).toList
  let parts := FileName.components rest
  (List.range parts.length).map fun n =>
    String.ofList (anchor ++ ['/'].intercalate (parts.take (n + 1)))

/-- The files that a request reads: the snapshot, and the file of a principal. -/
def filesOf : Request → List String
  | .task (.resolve _ file) => snapshotFile :: file.toList
  | .task (.check _ file _) => snapshotFile :: file.toList
  | .task _ => [snapshotFile]
  | _ => []

/-- Adds what stands at a name. -/
def probe (fs : Files) (name : String) : IO Files := do
  match ← (IO.FS.readBinFile (toPlain name)).toBaseIO with
  | .ok octets => return fs.put name octets.toList
  | .error (.inappropriateType _ 21 _) => return (fs.makeDirectory name).toOption.getD fs
  | .error _ => return fs

/-- Prints what a run comes to and gives its exit code. -/
def report (outcome : Outcome) : IO UInt32 := do
  IO.print (toPlain outcome.output)
  match outcome.refusal with
  | some r => IO.eprint (toPlain (r.usage ++ r.line ++ "\n"))
  | none => pure ()
  outcome.log.forM fun line => IO.eprintln (toPlain line)
  match outcome.ending with
  | .exit code => return code.toUInt32
  | .aborted f =>
      IO.eprintln (toPlain f.message)
      return 1

end StartNodes.Program

open StartNodes StartNodes.Program in
def main (arguments : List String) : IO UInt32 := do
  let arguments := arguments.map Text.ofPlain
  let names := (filesOf (Command.readCommandLine arguments)).flatMap waypoints
  let fs ← names.eraseDups.foldlM probe {}
  let (outcome, _) := Command.run fs arguments
  match outcome.snapshot with
  | some text =>
      IO.FS.createDirAll Command.dataDirectory
      IO.FS.writeFile Command.snapshotFile text
  | none => pure ()
  report outcome
