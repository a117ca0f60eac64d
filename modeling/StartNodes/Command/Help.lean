import StartNodes.Command.Grammar

/-!
Usage lines and help texts, laid out for eighty columns: usage lines are filled with whole parts up to column 78,
and explanations stand from column 24 on, below an entry that reaches too far to the right.
-/

namespace StartNodes.Command

/-- The last column that is filled. -/
def textWidth : Nat := 78

/-- The column at which explanations stand. -/
def helpColumn : Nat := 24

def blanks (n : Nat) : String := String.ofList (List.replicate n ' ')

/-- Fills lines with parts, with one blank between two parts of a line; each line but the first is indented. -/
def fill (indent : Nat) : String → List String → String
  | line, [] => line ++ "\n"
  | line, part :: parts =>
      if textWidth < line.length + 1 + part.length then line ++ "\n" ++ fill indent (blanks indent ++ part) parts
      else fill indent (line ++ " " ++ part) parts

def usageLine (program : String) (parts : List String) : String :=
  let start := "usage: " ++ program
  fill (start.length + 1) start parts

def entry (indent : Nat) (header help : String) : String :=
  let start := blanks indent ++ header
  if start.length + 2 ≤ helpColumn then start ++ blanks (helpColumn - start.length) ++ help ++ "\n"
  else start ++ "\n" ++ blanks helpColumn ++ help ++ "\n"

def helpEntry : String :=
  entry 2 "-h, --help" "show this help message and exit"

def OptionSpec.form (o : OptionSpec) : String :=
  o.name ++ " " ++ o.metavar

def OptionSpec.usage (o : OptionSpec) : String :=
  if o.required then o.form else "[" ++ o.form ++ "]"

def commandMetavar : String :=
  "\x7b" ++ ",".intercalate subcommandNames ++ "\x7d"

def usage : String :=
  usageLine program ["[-h]", commandMetavar, "..."]

def help : String :=
  usage ++ "\n" ++ description ++ "\n\npositional arguments:\n"
    ++ entry 2 commandMetavar "Command to execute"
    ++ String.join (subcommands.map fun c => entry 4 c.name c.help)
    ++ "\noptions:\n" ++ helpEntry

namespace Subcommand

def usage (c : Subcommand) : String :=
  usageLine c.program ("[-h]" :: c.options.map OptionSpec.usage)

def helpText (c : Subcommand) : String :=
  c.usage ++ "\noptions:\n" ++ helpEntry ++ String.join (c.options.map fun o => entry 2 o.form o.help)

end Subcommand

end StartNodes.Command
