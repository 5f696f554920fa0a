import AssessmentItems.Compiler

/-!
The command line. Arguments are read into a command, and a command is run on the texts
that it reads, to an exit code and the text that it prints. An item that is refused is
reported, and a text that cannot be read or a configuration that is none ends the run
without a word. The words for what is wrong with a text that is not JSON belong to the
reader of JSON, and are a parameter of every run.
-/
namespace AssessmentItems.CommandLine

/-- Where a text is read from. -/
inductive Source where
  | standardInput
  | file (path : Text)
deriving Repr, DecidableEq

/-- A lone hyphen stands for the standard input. -/
def Source.ofPath (path : Text) : Source := if path = "-" then standardInput else file path

inductive Command where
  | compile (input : Source) (configuration : Option Source) (manifest : Bool)
  | validate (input : Source)
  | expand (value : Text)
  | widgets
deriving Repr, DecidableEq

/-- The name of a command, or of the help on commands. -/
inductive Topic where
  | compile
  | validate
  | expand
  | widgets
  | help
deriving Repr, DecidableEq

namespace Topic

def all : List Topic := [compile, validate, expand, widgets, help]

def name : Topic → Text
  | compile => "compile"
  | validate => "validate"
  | expand => "expand"
  | widgets => "widgets"
  | help => "help"

def ofName? (name : Text) : Option Topic := all.find? fun topic => topic.name = name

end Topic

/-- Why arguments do not give a command. -/
inductive Detour where
  | usage
  | help (topic : Option Topic)
  | version
deriving Repr, DecidableEq

/-- An option that stands before a value or alone. -/
structure Switch where
  short : Option Char
  long : Text
  takesValue : Bool
deriving Repr, DecidableEq

/-- What a command takes: switches, and at most some number of values without one. -/
structure Grammar where
  topic : Topic
  switches : List Switch
  values : Nat
deriving Repr, DecidableEq

/-- What was given to a command; a switch that stands alone is given as the empty text. -/
structure Given where
  switches : List (Text × Text)
  values : List Text
deriving Repr, DecidableEq

namespace Given

def switch? (g : Given) (long : Text) : Option Text := Table.find? long g.switches

/-- No switch is given twice, and none with an empty value where it takes one. -/
def addSwitch (g : Given) (s : Switch) (value : Text) : Except Detour Given :=
  if (g.switch? s.long).isSome ∨ (s.takesValue ∧ value = []) then .error .usage
  else .ok { g with switches := (s.long, value) :: g.switches }

def addValue (grammar : Grammar) (g : Given) (value : Text) : Except Detour Given :=
  if g.values.length < grammar.values then .ok { g with values := g.values ++ [value] }
  else .error .usage

end Given

/-- Whether an argument may be the value of a switch that it follows. -/
def isValue : Text → Bool
  | '-' :: _ :: _ => false
  | _ => true

/-- A name and what stands after the first `=`. -/
def splitEquals (t : Text) : Text × Option Text :=
  match t.dropWhile (· ≠ '=') with
  | [] => (t, none)
  | _ :: value => (t.takeWhile (· ≠ '='), some value)

/-- A value that is written together with a short name. -/
def attached? : Text → Option Text
  | [] => none
  | '=' :: value => some value
  | value => some value

/-- What an argument is: a switch with its attached value, or a value. -/
inductive Argument where
  | switch (s : Switch) (attached : Option Text)
  | value (t : Text)

def argument (grammar : Grammar) (t : Text) : Except Detour Argument :=
  match t with
  | '-' :: '-' :: body =>
    let (name, attached) := splitEquals body
    if name = "help" then
      .error (if attached.isNone then .help (some grammar.topic) else .usage)
    else
      match grammar.switches.find? fun s => s.long = name with
      | some s => .ok (.switch s attached)
      | none => .error .usage
  | '-' :: c :: body =>
    if c = 'h' then .error (.help (some grammar.topic))
    else
      match grammar.switches.find? fun s => s.short = some c with
      | some s => .ok (.switch s (attached? body))
      | none => .error .usage
  | t => .ok (.value t)

/-- Reads the arguments of a command; after two hyphens all are values. -/
def read (grammar : Grammar) (given : Given) : List Text → Except Detour Given
  | [] => .ok given
  | ['-', '-'] :: rest => rest.foldlM (Given.addValue grammar) given
  | arg :: rest => do
    match ← argument grammar arg with
    | .value t => read grammar (← given.addValue grammar t) rest
    | .switch s (some value) =>
      if s.takesValue then read grammar (← given.addSwitch s value) rest else .error .usage
    | .switch s none =>
      if !s.takesValue then read grammar (← given.addSwitch s []) rest
      else
        match rest with
        | value :: rest =>
          if isValue value then read grammar (← given.addSwitch s value) rest
          else .error .usage
        | [] => .error .usage

def inputSwitch : Switch := ⟨some 'i', "input", true⟩

def configurationSwitch : Switch := ⟨some 'c', "config", true⟩

def manifestSwitch : Switch := ⟨none, "manifest", false⟩

/-- What must be given. -/
def need (value : Option Text) : Except Detour Text :=
  match value with
  | some t => .ok t
  | none => .error .usage

def readCompile (args : List Text) : Except Detour Command := do
  let given ← read ⟨.compile, [inputSwitch, configurationSwitch, manifestSwitch], 0⟩ ⟨[], []⟩ args
  .ok (.compile (.ofPath (← need (given.switch? inputSwitch.long)))
    ((given.switch? configurationSwitch.long).map .file)
    (given.switch? manifestSwitch.long).isSome)

def readValidate (args : List Text) : Except Detour Command := do
  let given ← read ⟨.validate, [inputSwitch], 0⟩ ⟨[], []⟩ args
  .ok (.validate (.ofPath (← need (given.switch? inputSwitch.long))))

def readExpand (args : List Text) : Except Detour Command := do
  let given ← read ⟨.expand, [], 1⟩ ⟨[], []⟩ args
  .ok (.expand (← need given.values.head?))

def readWidgets (args : List Text) : Except Detour Command := do
  let _ ← read ⟨.widgets, [], 0⟩ ⟨[], []⟩ args
  .ok .widgets

/-- The topic that help is asked on. -/
def readHelp : List Text → Detour
  | [] => .help none
  | [name] =>
    match Topic.ofName? name with
    | some topic => .help (some topic)
    | none => .usage
  | _ => .usage

/-- The command that arguments give. -/
def command : List Text → Except Detour Command
  | [] => .error .usage
  | arg :: rest =>
    match Topic.ofName? arg with
    | some .compile => readCompile rest
    | some .validate => readValidate rest
    | some .expand => readExpand rest
    | some .widgets => readWidgets rest
    | some .help => .error (readHelp rest)
    | none =>
      match arg with
      | '-' :: 'h' :: _ => .error (.help none)
      | '-' :: 'V' :: _ => .error .version
      | _ =>
        if arg = "--help" then .error (.help none)
        else if arg = "--version" then .error .version
        else .error .usage

def Topic.summary : Topic → Text
  | compile => "Compile an item to a QTI document"
  | validate => "Validate an item without producing output"
  | expand => "Show the accepted spellings of an answer"
  | widgets => "List registered widget types"
  | help => "Print this message or the help of the given subcommand(s)"

/-- How a command is called, and what it takes. -/
def Topic.usage : Topic → List Text
  | compile => [
      "Usage: qti-compile compile [OPTIONS] --input <INPUT>",
      "",
      "Options:",
      "  -i, --input <INPUT>    Item JSON file, or - for stdin",
      "  -c, --config <CONFIG>  Compiler config JSON",
      "      --manifest         Emit a JSON manifest with hashes instead of bare XML",
      "  -h, --help             Print help"]
  | validate => [
      "Usage: qti-compile validate --input <INPUT>",
      "",
      "Options:",
      "  -i, --input <INPUT>  Item JSON file, or - for stdin",
      "  -h, --help           Print help"]
  | expand => [
      "Usage: qti-compile expand <VALUE>",
      "",
      "Arguments:",
      "  <VALUE>  ",
      "",
      "Options:",
      "  -h, --help  Print help"]
  | widgets => [
      "Usage: qti-compile widgets",
      "",
      "Options:",
      "  -h, --help  Print help"]
  | help => [
      "Usage: qti-compile help [COMMAND]...",
      "",
      "Arguments:",
      "  [COMMAND]...  Print help for the subcommand(s)"]

/-- A line of a list of commands, the summaries below each other. -/
def Topic.entry (topic : Topic) : Text :=
  "  " ++ topic.name ++ List.replicate (10 - topic.name.length) ' ' ++ topic.summary

def helpLines : Option Topic → List Text
  | some topic => topic.summary :: [] :: topic.usage
  | none => List.flatten [
      ["QTI Compiler - declarative assessment items to QTI 3.0 XML",
        "",
        "Usage: qti-compile <COMMAND>",
        "",
        "Commands:"],
      Topic.all.map Topic.entry,
      ["",
        "Options:",
        "  -h, --help     Print help",
        "  -V, --version  Print version"]]

/-- The exit code of a run and the text that it prints. -/
structure Outcome where
  exit : Nat
  output : Text
deriving Repr, DecidableEq

namespace Outcome

/-- A text on lines of its own. -/
def printed (exit : Nat) (t : Text) : Outcome := ⟨exit, t ++ ['\n']⟩

def silent (exit : Nat) : Outcome := ⟨exit, []⟩

/-- Prints what was made, or reports the error under the name of what did not succeed. -/
def ofResult (describe : JsonFault → Text) (success : Text) (write : α → Text) :
    Except CompileError α → Outcome
  | .ok a => printed 0 (write a)
  | .error e =>
    printed 2 (JsonWriter.pretty (Json.object [("error", .string (e.message describe)),
      (success, .bool false)]).ordered)

def ofDetour : Detour → Outcome
  | .usage => silent 2
  | .help topic => printed 0 (Text.lines (helpLines topic))
  | .version => printed 0 ("qti-compile " ++ Compiler.version)

end Outcome

def texts (ts : List Text) : Json := .array (ts.map .string)

/-- The document of an item, or its manifest. -/
def compiled (c : Compiler) (manifest : Bool) (input : Text) : Except CompileError Text := do
  let item ← AssessmentItem.ofText input
  if manifest then
    (c.manifest item).result.map fun m => JsonWriter.pretty m.toJson
  else (c.compile item).result

/-- The slots of the widgets of an item that is in order. -/
def validated (input : Text) : Except CompileError (List Text) := do
  let item ← AssessmentItem.ofText input
  (Compiler.validate item).result.map Table.names

def validReport (slots : List Text) : Text :=
  JsonWriter.pretty (.object [("valid", .bool true), ("widgets", texts slots)])

def expansionReport (value : Text) : Text :=
  JsonWriter.pretty (.object [("rules", texts ((AnswerRules.matchingRules value).map fun r => r.name)),
    ("value", .string value), ("variants", texts (AnswerClass.expand value))])

def widgetReport : Text :=
  JsonWriter.pretty (.array (WidgetKind.all.map fun kind =>
    .object [("output", .string kind.output.name), ("type", .string kind.name)]))

/-- The configuration that is read, or the standard one if there is nothing to read. -/
def configuration? : Option (Option Text) → Option Configuration
  | none => some .standard
  | some none => none
  | some (some t) => (Configuration.ofText t).toOption

/-- Runs a command, given how texts are read and how the faults of a text are worded. The
configuration is read first. -/
def run [Monad m] (describe : Text → JsonFault → Text) (readSource : Source → m (Option Text)) :
    Command → m Outcome
  | .compile input configuration manifest => do
    match configuration? (← configuration.mapM readSource) with
    | none => pure (.silent 1)
    | some configuration =>
      match ← readSource input with
      | none => pure (.silent 1)
      | some t =>
        let c : Compiler := { Compiler.standard with configuration := configuration }
        pure (.ofResult (describe t) "success" id (compiled c manifest t))
  | .validate input => do
    match ← readSource input with
    | none => pure (.silent 1)
    | some t => pure (.ofResult (describe t) "valid" validReport (validated t))
  | .expand value => pure (.printed 0 (expansionReport value))
  | .widgets => pure (.printed 0 widgetReport)

/-- Runs the command that arguments give. -/
def runArguments [Monad m] (describe : Text → JsonFault → Text)
    (readSource : Source → m (Option Text)) (args : List Text) : m Outcome :=
  match command args with
  | .ok c => run describe readSource c
  | .error detour => pure (.ofDetour detour)

end AssessmentItems.CommandLine
