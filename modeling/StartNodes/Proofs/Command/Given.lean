import StartNodes.Proofs.Command.Runs

/-!
Command lines whose options have their values behind equals signs. A value that stands there is taken as it is, also if
it looks like an option or is empty, so such a command line can ask for whatever a command does. Only two minus signs alone
are no value, so an option can also be given without one.
-/

namespace StartNodes.Command

open Decimal

/-- The argument that gives an option its value behind an equals sign. -/
def OptionSpec.given (o : OptionSpec) (text : String) : String :=
  o.name ++ "=" ++ text

/-- An option with a value that it takes. -/
structure Given where
  option : OptionSpec
  text : String
  value : Value
  read : option.readInline text = .ok value

namespace Given

def argument (s : Given) : String :=
  s.option.given s.text

/-- What the argument is taken for. -/
def token (s : Given) : Token :=
  .option (some ⟨.option s.option, s.option.name, some s.text⟩)

/-- The values of some options, the last one first. -/
def values (settings : List Given) : List (String × Value) :=
  (settings.map fun s => (s.option.name, s.value)).reverse

variable {s : Given}

theorem toList_argument (s : Given) : s.argument.toList = s.option.name.toList ++ '=' :: s.text.toList := by
  rw [argument, OptionSpec.given, String.toList_append, String.toList_append, List.append_assoc]
  rfl

theorem equals_mem_argument (s : Given) : '=' ∈ s.argument.toList := by
  rw [toList_argument]
  exact List.mem_append_right _ List.mem_cons_self

theorem splitEquals_argument (h : '=' ∉ s.option.name.toList) : splitEquals s.argument = (s.option.name, some s.text) := by
  have hname : ∀ c ∈ s.option.name.toList, (c != '=') = true := fun c hc =>
    bne_iff_ne.mpr fun heq => h (heq ▸ hc)
  rw [splitEquals, toList_argument, List.takeWhile_append_of_pos hname, List.dropWhile_append_of_pos hname]
  simp [String.ofList_toList]

/-- No spelling of an option is the whole argument. -/
theorem lookup_argument {table : List (String × Target)} (h : ∀ row ∈ table, '=' ∉ row.1.toList) :
    table.lookup s.argument = none := by
  rw [List.lookup_eq_none_iff]
  intro row hrow
  rw [bne_iff_ne]
  intro hsame
  exact h row hrow (hsame ▸ s.equals_mem_argument)

end Given

/-! ### Names and spellings -/

/-- What the names of options have in common: they start with two minus signs and hold no equals sign. -/
structure OptionSpec.IsLong (o : OptionSpec) : Prop where
  start : "--".toList <+: o.name.toList
  noEquals : '=' ∉ o.name.toList

section Spellings

variable {c : Subcommand} {o : OptionSpec}

theorem isLong_of_mem (hc : c ∈ subcommands) (ho : o ∈ c.options) : o.IsLong := by
  have h : ∀ c ∈ subcommands, ∀ o ∈ c.options, "--".toList <+: o.name.toList ∧ '=' ∉ o.name.toList := by decide
  exact ⟨(h c hc o ho).1, (h c hc o ho).2⟩

theorem noEquals_spellings {options : List OptionSpec} (h : ∀ o ∈ options, o.IsLong) :
    ∀ row ∈ spellings options, '=' ∉ row.1.toList := by
  rw [spellings, List.forall_mem_append, List.forall_mem_map]
  exact ⟨by decide, fun o ho => (h o ho).noEquals⟩

/-- No option of a command, nor what it may be short for, is one of the program's own. -/
theorem foreign_spellings (hc : c ∈ subcommands) (ho : o ∈ c.options) :
    ∀ row ∈ spellings [], ¬ o.name.toList <+: row.1.toList := by
  have h : ∀ c ∈ subcommands, ∀ o ∈ c.options, ∀ name ∈ (spellings []).map Prod.fst, ¬ o.name.toList <+: name.toList := by
    decide
  exact fun row hrow => h c hc o ho row.1 (List.mem_map_of_mem hrow)

/-- Each option of a command is found by its name. -/
theorem lookup_name (hc : c ∈ subcommands) (ho : o ∈ c.options) : (spellings c.options).lookup o.name = some (.option o) := by
  have h : ∀ c ∈ subcommands, ∀ o ∈ c.options, (spellings c.options).lookup o.name = some (.option o) := by
    simp only [subcommands, List.forall_mem_cons]
    exact ⟨⟨rfl, rfl, rfl, nofun⟩, ⟨rfl, rfl, nofun⟩, ⟨rfl, rfl, nofun⟩, ⟨rfl, rfl, rfl, nofun⟩, nofun⟩
  exact h c hc o ho

theorem head?_name (hc : c ∈ subcommands) : c.name.toList.head? ≠ some '-' := by
  have h : ∀ c ∈ subcommands, c.name.toList.head? ≠ some '-' := by decide
  exact h c hc

/-- Each command is found by its name. -/
theorem find_name (hc : c ∈ subcommands) : subcommands.find? (fun other => other.name == c.name) = some c := by
  have h : ∀ c ∈ subcommands, subcommands.find? (fun other => other.name == c.name) = some c := by
    simp only [subcommands, List.forall_mem_cons]
    exact ⟨rfl, rfl, rfl, rfl, nofun⟩
  exact h c hc

end Spellings

/-! ### Arguments one by one -/

theorem classify_of_plain {table : List (String × Target)} {argument : String} (h : argument.toList.head? ≠ some '-') :
    classify table argument = .ok .plain := by
  rw [classify]
  split
  · rfl
  · next c rest hargument =>
    rw [hargument] at h
    rw [if_pos (bne_iff_ne.mpr fun heq => h (congrArg some heq))]

namespace Given

variable {s : Given} {table : List (String × Target)}

/-- The argument starts as its option does. -/
theorem exists_toList_argument (h : s.option.IsLong) : ∃ rest, s.argument.toList = '-' :: '-' :: rest := by
  obtain ⟨rest, hrest⟩ := h.start
  refine ⟨rest ++ '=' :: s.text.toList, ?_⟩
  rw [toList_argument, ← hrest]
  rfl

/-- Where the option is known, the argument is taken for it. -/
theorem classify_argument (h : s.option.IsLong) (htable : ∀ row ∈ table, '=' ∉ row.1.toList)
    (hknown : table.lookup s.option.name = some (.option s.option)) : classify table s.argument = .ok s.token := by
  obtain ⟨rest, hrest⟩ := exists_toList_argument h
  rw [classify, hrest]
  simp only [lookup_argument htable, splitEquals_argument h.noEquals, hknown]
  rfl

/-- Where the option is not known, nor is one that it may be short for, the argument is left to others. -/
theorem exists_classify_argument (h : s.option.IsLong) (htable : ∀ row ∈ table, '=' ∉ row.1.toList)
    (hforeign : ∀ row ∈ table, ¬ s.option.name.toList <+: row.1.toList) :
    ∃ token, classify table s.argument = .ok token := by
  obtain ⟨rest, hrest⟩ := exists_toList_argument h
  have hunknown : table.lookup s.option.name = none := by
    rw [List.lookup_eq_none_iff]
    intro row hrow
    rw [bne_iff_ne]
    intro hsame
    exact hforeign row hrow (hsame ▸ List.prefix_refl _)
  have hcandidates : candidates table s.argument = [] := by
    have hlong : "--".toList.isPrefixOf s.argument.toList = true := by
      rw [hrest]
      rfl
    rw [candidates, if_pos hlong, splitEquals_argument h.noEquals]
    simp only [List.map_eq_nil_iff, List.filter_eq_nil_iff, List.isPrefixOf_iff_prefix]
    exact hforeign
  rw [classify, hrest]
  simp only [lookup_argument htable, splitEquals_argument h.noEquals, hunknown, hcandidates]
  split
  · exact ⟨_, rfl⟩
  · split
    · exact ⟨_, rfl⟩
    · split <;> exact ⟨_, rfl⟩

theorem argument_ne_separator (s : Given) : s.argument ≠ "--" := by
  intro h
  have hmem := s.equals_mem_argument
  rw [h] at hmem
  exact absurd hmem (by decide)

end Given

/-! ### Whole command lines -/

theorem classifyAll_cons {table : List (String × Target)} {argument : String} {token : Token} (hne : argument ≠ "--")
    (h : classify table argument = .ok token) (rest : List String) :
    classifyAll table (argument :: rest) = (classifyAll table rest).map fun tokens => (argument, token) :: tokens := by
  rw [classifyAll, beq_eq_false_iff_ne.mpr hne, if_neg Bool.false_ne_true, h]

section Lines

variable {c : Subcommand} {settings : List Given}

theorem classifyAll_given (hc : c ∈ subcommands) (h : ∀ s ∈ settings, s.option ∈ c.options) :
    classifyAll (spellings c.options) (settings.map Given.argument) =
      .ok (settings.map fun s => (s.argument, s.token)) := by
  induction settings with
  | nil => rfl
  | cons s settings ih =>
    obtain ⟨hs, h⟩ := List.forall_mem_cons.mp h
    have hclassify := Given.classify_argument (isLong_of_mem hc hs)
      (noEquals_spellings fun o => isLong_of_mem hc) (lookup_name hc hs)
    rw [List.map_cons, classifyAll_cons s.argument_ne_separator hclassify, ih h]
    rfl

theorem exists_classifyAll_given (hc : c ∈ subcommands) (h : ∀ s ∈ settings, s.option ∈ c.options) :
    ∃ tokens, classifyAll (spellings []) (settings.map Given.argument) = .ok tokens ∧
      tokens.map Prod.fst = settings.map Given.argument := by
  induction settings with
  | nil => exact ⟨[], rfl, rfl⟩
  | cons s settings ih =>
    obtain ⟨hs, h⟩ := List.forall_mem_cons.mp h
    obtain ⟨tokens, htokens, hsame⟩ := ih h
    obtain ⟨token, htoken⟩ := Given.exists_classify_argument (isLong_of_mem hc hs) (noEquals_spellings (List.forall_mem_nil _))
      (foreign_spellings hc hs)
    refine ⟨(s.argument, token) :: tokens, ?_, ?_⟩
    · rw [List.map_cons, classifyAll_cons s.argument_ne_separator htoken, htokens]
      rfl
    · rw [List.map_cons, List.map_cons, hsame]

theorem readOptions_given (settings : List Given) (values : List (String × Value)) (extra : List String) :
    readOptions (settings.map fun s => (s.argument, s.token)) values extra =
      .ok (.values (Given.values settings ++ values) extra) := by
  induction settings generalizing values with
  | nil => rfl
  | cons s settings ih =>
    rw [List.map_cons, Given.token, readOptions]
    simp only [s.read]
    rw [ih]
    simp [Given.values]

/-- A command reads its options as they are given, the last of each first; the required ones have to be among them. -/
theorem readArguments_given (hc : c ∈ subcommands) (h : ∀ s ∈ settings, s.option ∈ c.options) :
    c.readArguments (settings.map Given.argument) =
      if c.missing (Given.values settings) = [] then .ok (.values (Given.values settings) [])
      else .error (.missing (c.missing (Given.values settings))) := by
  rw [Subcommand.readArguments, classifyAll_given hc h]
  simp only [readOptions_given, List.append_nil, List.isEmpty_iff]

/-- The command line that names a command and gives options their values asks for the task that the values describe. -/
theorem readCommandLine_given (hc : c ∈ subcommands) (h : ∀ s ∈ settings, s.option ∈ c.options)
    (hrequired : c.missing (Given.values settings) = []) {t : Task}
    (ht : c.task? (Given.values settings) = some t) :
    readCommandLine (c.name :: settings.map Given.argument) = .task t := by
  have hname : c.name ≠ "--" := by
    intro hsame
    have hhead := head?_name hc
    rw [hsame] at hhead
    exact hhead rfl
  -- the program itself may take the options for anything: behind the name of the command it hands them on as they are
  obtain ⟨tokens, htokens, hsame⟩ := exists_classifyAll_given hc h
  rw [readCommandLine, classifyAll_cons hname (classify_of_plain (head?_name hc)), htokens]
  show requestFor c.name (tokens.map Prod.fst) [] = _
  rw [hsame, requestFor, find_name hc]
  simp only [Subcommand.request, readArguments_given hc h, if_pos hrequired, ht]
  rfl

end Lines

/-! ### Command lines for what commands do -/

/-- How an option without a value is given. -/
abbrev noValue : String := "--"

theorem OptionSpec.readInline_of_ne {o : OptionSpec} {text : String} (h : text ≠ noValue) : o.readInline text = o.read text := by
  rw [OptionSpec.readInline, beq_eq_false_iff_ne.mpr h, if_neg Bool.false_ne_true]

namespace Given

def ofNothing (o : OptionSpec) : Given :=
  ⟨o, noValue, .nothing, rfl⟩

theorem readInline_name (kind : Hierarchy) : kindOption.readInline kind.name = .ok (.hierarchy kind) := by
  have hne : kind.name ≠ noValue := by cases kind <;> decide
  rw [OptionSpec.readInline_of_ne hne, OptionSpec.read]
  simp only [kindOption, Hierarchy.ofName?_name]

def ofKind (kind : Option Hierarchy) : Given :=
  kind.elim (ofNothing kindOption) fun kind => ⟨kindOption, kind.name, .hierarchy kind, readInline_name kind⟩

/-- An option that takes a text, with one or without. -/
def ofText (o : OptionSpec) (ho : o.kind = .text) (text : Option String) (htext : text ≠ some noValue) : Given :=
  match text with
  | none => ofNothing o
  | some text =>
    { option := o
      text := text
      value := .text text
      read := by
        rw [OptionSpec.readInline_of_ne fun heq => htext (congrArg some heq), OptionSpec.read, ho] }

theorem readInline_intText {o : OptionSpec} (ho : o.kind = .integer) {n : Int} (hn : digitCount n ≤ maxDigits) :
    o.readInline (String.ofList (intText n)) = .ok (.integer n) := by
  have hread : readInt (String.ofList (intText n)) = .ok n := by
    rw [readInt, String.toList_ofList, readChars_intText hn]
  have hne : String.ofList (intText n) ≠ noValue := by
    intro heq
    rw [heq] at hread
    cases hread
  rw [OptionSpec.readInline_of_ne hne, OptionSpec.read, ho]
  simp only [hread]

/-- An option that takes an integer, with one or without. -/
def ofInt (o : OptionSpec) (ho : o.kind = .integer) (n : Option Int) (hn : ∀ m ∈ n, digitCount m ≤ maxDigits) : Given :=
  match n with
  | none => ofNothing o
  | some n => ⟨o, String.ofList (intText n), .integer n, readInline_intText ho (hn n rfl)⟩

@[simp]
theorem option_ofKind (kind : Option Hierarchy) : (ofKind kind).option = kindOption := by
  cases kind <;> rfl

@[simp]
theorem option_ofText {o : OptionSpec} (ho : o.kind = .text) (text : Option String) (htext : text ≠ some noValue) :
    (ofText o ho text htext).option = o := by
  cases text <;> rfl

@[simp]
theorem option_ofInt {o : OptionSpec} (ho : o.kind = .integer) (n : Option Int)
    (hn : ∀ m ∈ n, digitCount m ≤ maxDigits) : (ofInt o ho n hn).option = o := by
  cases n <;> rfl

end Given

namespace Task

/-- What a command line can ask for: its nodes are not too long to be read, its texts are not two minus signs alone. -/
def CanBeGiven : Task → Prop
  | .addNode _ id parent => (∀ n ∈ id, digitCount n ≤ maxDigits) ∧ ∀ n ∈ parent, digitCount n ≤ maxDigits
  | .trash _ id => ∀ n ∈ id, digitCount n ≤ maxDigits
  | .resolve _ file => file ≠ some noValue
  | .check _ file path => file ≠ some noValue ∧ path ≠ some noValue

/-- The text of a hierarchy, or of none. -/
def kindText (kind : Option Hierarchy) : String :=
  kind.elim noValue Hierarchy.name

/-- The text of a node, or of none. -/
def nodeText (id : Option NodeId) : String :=
  id.elim noValue fun id => String.ofList (intText id)

/-- The arguments that ask for something. -/
def arguments : Task → List String
  | .addNode kind id parent =>
      ["add-node", kindOption.given (kindText kind), idOption.given (nodeText id), parentOption.given (nodeText parent)]
  | .trash kind id => ["trash", kindOption.given (kindText kind), idOption.given (nodeText id)]
  | .resolve kind file => ["resolve", principalOption.given (file.getD noValue), kindOption.given (kindText kind)]
  | .check kind file path =>
      ["check", principalOption.given (file.getD noValue), kindOption.given (kindText kind),
        pathOption.given (path.getD noValue)]

/-- Whatever a command line can ask for, one asks for it. -/
theorem accepted {t : Task} (h : t.CanBeGiven) : readCommandLine t.arguments = .task t := by
  have hgiven : ∃ c ∈ subcommands, ∃ settings : List Given, (∀ s ∈ settings, s.option ∈ c.options) ∧
      c.missing (Given.values settings) = [] ∧
      c.task? (Given.values settings) = some t ∧
      t.arguments = c.name :: settings.map Given.argument := by
    cases t with
    | addNode kind id parent =>
      refine ⟨_, List.mem_cons_self,
        [.ofKind kind, .ofInt idOption (by decide) id h.1, .ofInt parentOption (by decide) parent h.2], by simp, ?_⟩
      cases kind <;> cases id <;> cases parent <;> exact ⟨rfl, rfl, rfl⟩
    | trash kind id =>
      have hid : ∀ n ∈ id, digitCount n ≤ maxDigits := h
      refine ⟨_, .tail _ List.mem_cons_self, [.ofKind kind, .ofInt idOption (by decide) id hid], by simp, ?_⟩
      cases kind <;> cases id <;> exact ⟨rfl, rfl, rfl⟩
    | resolve kind file =>
      have hfile : file ≠ some noValue := h
      refine ⟨_, .tail _ (.tail _ List.mem_cons_self), [.ofText principalOption (by decide) file hfile, .ofKind kind],
        by simp, ?_⟩
      cases kind <;> cases file <;> exact ⟨rfl, rfl, rfl⟩
    | check kind file path =>
      refine ⟨_, .tail _ (.tail _ (.tail _ List.mem_cons_self)),
        [.ofText principalOption (by decide) file h.1, .ofKind kind, .ofText pathOption (by decide) path h.2], by simp, ?_⟩
      cases kind <;> cases file <;> cases path <;> exact ⟨rfl, rfl, rfl⟩
  obtain ⟨c, hc, settings, hsettings, hrequired, htask, harguments⟩ := hgiven
  rw [harguments]
  exact readCommandLine_given hc hsettings hrequired htask

def line (t : Task) (h : t.CanBeGiven) : Line :=
  ⟨t.arguments, t, accepted h⟩

end Task

end StartNodes.Command
