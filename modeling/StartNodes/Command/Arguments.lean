import StartNodes.Command.Help
import StartNodes.Text.Quoted

/-!
Reading command lines. A long option may be shortened as far as it stays unique; its value follows an equals sign
or is the next argument. An argument that starts with a minus sign is an option, unless it looks like a negative
number or holds a blank. Behind `--` nothing is an option. The last of several values counts. An option whose value
behind the equals sign is `--` is given, but has no value.
-/

namespace StartNodes.Command

inductive UsageError where
  | ambiguous (argument : String) (candidates : List String)
  | noValue (option : String)
  /-- A value was given to an option that takes none. -/
  | ignoredValue (option text : String)
  | notInteger (option text : String)
  | notChoice (option text : String) (choices : List String)
  | missing (options : List String)
  | unrecognized (arguments : List String)
  deriving DecidableEq, Repr

def UsageError.message : UsageError → String
  | .ambiguous argument candidates =>
      s!"ambiguous option: {argument} could match " ++ ", ".intercalate candidates
  | .noValue option => s!"argument {option}: expected one argument"
  | .ignoredValue option text => s!"argument {option}: ignored explicit argument " ++ Text.quote text
  | .notInteger option text => s!"argument {option}: invalid int value: " ++ Text.quote text
  | .notChoice option text choices =>
      s!"argument {option}: invalid choice: " ++ Text.quote text ++ " (choose from "
        ++ ", ".intercalate (choices.map Text.quote) ++ ")"
  | .missing options => "the following arguments are required: " ++ ", ".intercalate options
  | .unrecognized arguments => "unrecognized arguments: " ++ " ".intercalate arguments

/-- A refusal, with the usage line and the name of the part of the program that refuses. -/
structure Refusal where
  usage : String
  program : String
  error : UsageError

def Refusal.line (r : Refusal) : String :=
  s!"{r.program}: error: {r.error.message}"

/-! ### Arguments one by one -/

/-- What an argument refers to. -/
inductive Target where
  | help
  | option (o : OptionSpec)

/-- An option on the command line: what it refers to, in which spelling, and the value that stands in the same
argument. -/
structure Mention where
  target : Target
  spelling : String
  value : Option String := none

/-- What an argument is taken for. -/
inductive Token where
  | plain
  /-- The argument behind which nothing is an option. -/
  | separator
  /-- An option, with what it refers to if it is known. -/
  | option (mention : Option Mention)

/-- The spellings of the options of a part of the program, in order. -/
def spellings (options : List OptionSpec) : List (String × Target) :=
  [("-h", .help), ("--help", .help)] ++ options.map fun o => (o.name, .option o)

/-- Whether a text looks like a negative number: digits, with an optional point and digits behind it. A line break
may end it. -/
def looksNegative (argument : String) : Bool :=
  match argument.toList with
  | '-' :: rest =>
      let rest := if rest.getLast? == some '\n' then rest.dropLast else rest
      let tail := rest.dropWhile Text.isDecimalDigit
      match tail with
      | [] => !rest.isEmpty
      | '.' :: part => !part.isEmpty && part.all Text.isDecimalDigit
      | _ => false
  | _ => false

/-- A text up to its first equals sign, and what stands behind it. -/
def splitEquals (argument : String) : String × Option String :=
  let cs := argument.toList
  (String.ofList (cs.takeWhile (· != '=')),
    match cs.dropWhile (· != '=') with
    | [] => none
    | _ :: rest => some (String.ofList rest))

/-- The options that a shortened argument may stand for. -/
def candidates (table : List (String × Target)) (argument : String) : List Mention :=
  if "--".toList.isPrefixOf argument.toList then
    let (start, value) := splitEquals argument
    (table.filter fun row => start.toList.isPrefixOf row.1.toList).map fun row =>
      ⟨row.2, row.1, value⟩
  else
    let cs := argument.toList
    table.filterMap fun row =>
      if row.1.toList == cs.take 2 then some ⟨row.2, row.1, some (String.ofList (cs.drop 2))⟩
      else if cs.isPrefixOf row.1.toList then some ⟨row.2, row.1, none⟩
      else none

/-- What an argument is taken for, where options are still possible. -/
def classify (table : List (String × Target)) (argument : String) : Except UsageError Token :=
  match argument.toList with
  | [] => .ok .plain
  | c :: rest =>
      if c != '-' then .ok .plain
      else
        match table.lookup argument with
        | some target => .ok (.option (some { target, spelling := argument }))
        | none =>
            if rest.isEmpty then .ok .plain
            else
              let (start, value) := splitEquals argument
              match value, table.lookup start with
              | some text, some target =>
                  .ok (.option (some { target, spelling := start, value := some text }))
              | _, _ =>
                  match candidates table argument with
                  | [mention] => .ok (.option (some mention))
                  | [] =>
                      if looksNegative argument || rest.contains ' ' then .ok .plain else .ok (.option none)
                  | several => .error (.ambiguous argument (several.map Mention.spelling))

def classifyAll (table : List (String × Target)) : List String → Except UsageError (List (String × Token))
  | [] => .ok []
  | argument :: rest =>
      if argument == "--" then .ok ((argument, .separator) :: rest.map fun other => (other, .plain))
      else
        match classify table argument with
        | .error e => .error e
        | .ok token => (classifyAll table rest).map fun tokens => (argument, token) :: tokens

/-- The name by which the option that asks for help is reported. -/
def helpName : String := "-h/--help"

/-- Asks for help by a short option with something behind it, which can only ask for help again. -/
def shortHelp : List Char → Except UsageError Unit
  | 'h' :: [] => .ok ()
  | 'h' :: c :: rest => shortHelp (c :: rest)
  | cs => .error (.ignoredValue helpName (String.ofList cs))

/-- Asks for help, which takes no value. -/
def askHelp (m : Mention) : Except UsageError Unit :=
  match m.value with
  | none => .ok ()
  | some text => if m.spelling == "-h" then shortHelp text.toList else .error (.ignoredValue helpName text)

/-! ### Whole command lines -/

inductive Value where
  | integer (n : Int)
  | hierarchy (kind : Hierarchy)
  | text (s : String)
  /-- The option is given, but has no value. -/
  | nothing
  deriving DecidableEq, Repr

def OptionSpec.read (o : OptionSpec) (text : String) : Except UsageError Value :=
  match o.kind with
  | .integer =>
      match Decimal.readInt text with
      | .ok n => .ok (.integer n)
      | .error _ => .error (.notInteger o.name text)
  | .hierarchy =>
      match Hierarchy.ofName? text with
      | some kind => .ok (.hierarchy kind)
      | none => .error (.notChoice o.name text hierarchyNames)
  | .text => .ok (.text text)

/-- Reads the value of an option that stands in the same argument. -/
def OptionSpec.readInline (o : OptionSpec) (text : String) : Except UsageError Value :=
  if text == "--" then .ok .nothing else o.read text

/-- What the arguments of a command come to. -/
inductive Reading where
  | help
  /-- The values of the options, last first, and the arguments that are none. -/
  | values (values : List (String × Value)) (extra : List String)

/-- Reads the arguments of a command, where `values` have been read before. -/
def readOptions : List (String × Token) → List (String × Value) → List String → Except UsageError Reading
  | [], values, extra => .ok (.values values extra)
  | (argument, .plain) :: rest, values, extra => readOptions rest values (extra ++ [argument])
  | (argument, .separator) :: rest, values, extra => readOptions rest values (extra ++ [argument])
  | (argument, .option none) :: rest, values, extra => readOptions rest values (extra ++ [argument])
  | (_, .option (some m)) :: rest, values, extra =>
      match m.target with
      | .help => (askHelp m).map fun _ => .help
      | .option o =>
          match m.value, rest with
          | some text, rest =>
              match o.readInline text with
              | .error e => .error e
              | .ok value => readOptions rest ((o.name, value) :: values) extra
          | none, (text, .plain) :: rest =>
              match o.read text with
              | .error e => .error e
              | .ok value => readOptions rest ((o.name, value) :: values) extra
          | none, _ => .error (.noValue o.name)

namespace Subcommand

/-- The hierarchy among some values, if it has a value; content if none is given. -/
def kindIn (values : List (String × Value)) : Option Hierarchy :=
  match values.lookup kindOption.name with
  | some (.hierarchy kind) => some kind
  | some _ => none
  | none => some .content

/-- The integer that an option has among some values, if it has one. -/
def integerIn (values : List (String × Value)) (o : OptionSpec) (absent : Option Int := none) : Option Int :=
  match values.lookup o.name with
  | some (.integer n) => some n
  | some _ => none
  | none => absent

/-- The text that an option has among some values, if it has one. -/
def textIn (values : List (String × Value)) (o : OptionSpec) : Option String :=
  match values.lookup o.name with
  | some (.text s) => some s
  | _ => none

/-- The task that some values describe; a node is added to the root if no parent is given. -/
def task? (c : Subcommand) (values : List (String × Value)) : Option Task :=
  let kind := kindIn values
  match c.name with
  | "add-node" => some (.addNode kind (integerIn values idOption) (integerIn values parentOption (some rootId)))
  | "trash" => some (.trash kind (integerIn values idOption))
  | "resolve" => some (.resolve kind (textIn values principalOption))
  | "check" => some (.check kind (textIn values principalOption) (textIn values pathOption))
  | _ => none

/-- The required options that have no value. -/
def missing (c : Subcommand) (values : List (String × Value)) : List String :=
  (c.options.filter fun o => o.required && (values.lookup o.name).isNone).map OptionSpec.name

def readArguments (c : Subcommand) (arguments : List String) : Except UsageError Reading :=
  match classifyAll (spellings c.options) arguments with
  | .error e => .error e
  | .ok tokens =>
      match readOptions tokens [] [] with
      | .ok (.values values extra) =>
          let missing := c.missing values
          if missing.isEmpty then .ok (.values values extra) else .error (.missing missing)
      | other => other

end Subcommand

inductive Request where
  /-- A help text. -/
  | help (text : String)
  | task (t : Task)
  | refused (r : Refusal)

def refuse (e : UsageError) : Request :=
  .refused ⟨usage, program, e⟩

/-- The request that the arguments of a command make, where `extra` were none of the program's own. -/
def Subcommand.request (c : Subcommand) (arguments extra : List String) : Request :=
  match c.readArguments arguments with
  | .error e => .refused ⟨c.usage, c.program, e⟩
  | .ok .help => .help c.helpText
  | .ok (.values values more) =>
      if !(extra ++ more).isEmpty then refuse (.unrecognized (extra ++ more))
      else
        match c.task? values with
        | some t => .task t
        | none => .refused ⟨c.usage, c.program, .missing (c.missing values)⟩

/-- The request that a command of the given name makes. -/
def requestFor (name : String) (arguments extra : List String) : Request :=
  match subcommands.find? fun c => c.name == name with
  | some c => c.request arguments extra
  | none => refuse (.notChoice "command" name subcommandNames)

/-- Reads the program's own arguments, up to the name of a command. -/
def readProgram : List (String × Token) → List String → Request
  | [], extra => if extra.isEmpty then .help help else refuse (.unrecognized extra)
  | (name, .plain) :: rest, extra => requestFor name (rest.map Prod.fst) extra
  | (argument, .separator) :: [], extra => refuse (.unrecognized (extra ++ [argument]))
  | (argument, .separator) :: rest, extra => requestFor argument (rest.map Prod.fst) extra
  | (argument, .option none) :: rest, extra => readProgram rest (extra ++ [argument])
  | (argument, .option (some m)) :: rest, extra =>
      match m.target with
      | .help =>
          match askHelp m with
          | .error e => refuse e
          | .ok () => .help help
      | .option _ => readProgram rest (extra ++ [argument])

def readCommandLine (arguments : List String) : Request :=
  match classifyAll (spellings []) arguments with
  | .error e => refuse e
  | .ok tokens => readProgram tokens []

end StartNodes.Command
