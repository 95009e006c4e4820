import OpLint.File.Path
import OpLint.Vocabulary

/-!
# Arguments of the command

Arguments are read from left to right. What has been read is settled only when the
next thing starts: a setting waits for its value, and inputs that stand together
are taken together. So of two faults the one that is settled first is reported,
except that an argument nobody knows is reported before anything that waits.
-/

namespace OpLint

inductive OutputFormat
  | text
  | json
  deriving DecidableEq, Repr, Inhabited

instance : Vocabulary OutputFormat where
  all := [.text, .json]
  word
    | .text => "text"
    | .json => "json"

/-- What the command is asked to do. Whether bodies are taken one at a time, and by
how many threads, changes nothing of what a run finds. -/
structure Arguments where
  /-- Files and directories; none of them means the working directory. -/
  inputs : List Path
  config : Option Path
  format : OutputFormat
  sequential : Bool
  threads : Option Nat
  listRules : Bool
  noColor : Bool
  deriving DecidableEq, Repr, Inhabited

/-- An option that takes a value. -/
inductive Setting
  | config
  | format
  | threads
  deriving DecidableEq, Repr

/-- An option without a value. -/
inductive Switch
  | sequential
  | listRules
  | noColor
  | help
  | version
  deriving DecidableEq, Repr

inductive CommandOption
  | setting (s : Setting)
  | switch (w : Switch)
  deriving DecidableEq, Repr

namespace CommandOption

def ofLong? : String → Option CommandOption
  | "config" => some (.setting .config)
  | "format" => some (.setting .format)
  | "threads" => some (.setting .threads)
  | "sequential" => some (.switch .sequential)
  | "list-rules" => some (.switch .listRules)
  | "no-color" => some (.switch .noColor)
  | "help" => some (.switch .help)
  | "version" => some (.switch .version)
  | _ => none

def ofShort? : Char → Option CommandOption
  | 'c' => some (.setting .config)
  | 'j' => some (.setting .threads)
  | 'h' => some (.switch .help)
  | 'V' => some (.switch .version)
  | _ => none

end CommandOption

/-- Why the arguments do not start an analysis. -/
inductive Refusal
  | unknownArgument (argument : String)
  | unneededValue (argument : String)
  | missingValue (option : String)
  | unknownFormat (value : String)
  | notCount (value : String)
  | repeated (option : String)
  | helpWanted
  | versionWanted
  deriving DecidableEq, Repr

/-- How an argument is spelt. -/
inductive Spelling
  /-- Everything after it is an input. -/
  | terminator
  | long (name : String) (value : Option String)
  | short (letter : Char) (rest : String)
  | plain
  deriving DecidableEq, Repr

def Spelling.of (argument : String) : Spelling :=
  match argument.toList with
  | ['-', '-'] => .terminator
  | '-' :: '-' :: cs =>
    match cs.span (· ≠ '=') with
    | (name, []) => .long (.ofList name) none
    | (name, _ :: value) => .long (.ofList name) (some (.ofList value))
  | '-' :: c :: cs => .short c (.ofList cs)
  | _ => .plain

/-- A count fits 64 bits; a plus may stand before it. -/
def count? (text : String) : Option Nat :=
  let digits := match text.toList with
    | '+' :: cs => cs
    | cs => cs
  if digits.isEmpty || digits.any (!·.isDigit) then none
  else
    let n := digits.foldl (fun n c => n * 10 + (c.toNat - '0'.toNat)) 0
    if n ≤ 18446744073709551615 then some n else none

/-- What has been read and not settled. -/
inductive Pending
  | nothing
  | inputs (texts : List String)
  | setting (s : Setting) (value : Option String)
  deriving DecidableEq, Repr

/-- How far the arguments have been read. -/
structure Reading where
  settled : Arguments
  /-- Settings and switches that have been given. -/
  given : List CommandOption
  pending : Pending
  /-- Whether only inputs may follow. -/
  onlyInputs : Bool

namespace Reading

def start : Reading where
  settled := ⟨[], none, .text, false, none, false, false⟩
  given := []
  pending := .nothing
  onlyInputs := false

def settingName : Setting → String
  | .config => "--config <CONFIG>"
  | .format => "--format <FORMAT>"
  | .threads => "--threads <THREADS>"

def switchName : Switch → String
  | .sequential => "--sequential"
  | .listRules => "--list-rules"
  | .noColor => "--no-color"
  | .help => "--help"
  | .version => "--version"

/-- Notes an option, which must not have been given before. -/
def note (r : Reading) (option : CommandOption) : Except Refusal Reading :=
  if option ∈ r.given then
    throw <| .repeated <| match option with
      | .setting s => settingName s
      | .switch w => switchName w
  else return { r with given := option :: r.given }

/-- A value that is not blank. -/
def path (name text : String) : Except Refusal Path :=
  if text.isEmpty then throw (.missingValue name) else return ⟨text⟩

/-- Gives a setting its value. -/
def assign (r : Reading) (s : Setting) (value : String) : Except Refusal Reading := do
  let r ← r.note (.setting s)
  match s with
  | .config =>
    let config ← path (settingName s) value
    return { r with settled.config := some config }
  | .format =>
    match Vocabulary.ofWord? value with
    | some format => return { r with settled.format := format }
    | none => throw (.unknownFormat value)
  | .threads =>
    match count? value with
    | some threads => return { r with settled.threads := some threads }
    | none => throw (.notCount value)

/-- Settles what is pending. -/
def settle (r : Reading) : Except Refusal Reading := do
  let rest := { r with pending := .nothing }
  match r.pending with
  | .nothing => return rest
  | .inputs texts =>
    let paths ← texts.mapM (path "[INPUTS]...")
    return { rest with settled.inputs := rest.settled.inputs ++ paths }
  | .setting s none => throw (.missingValue (settingName s))
  | .setting s (some value) => rest.assign s value

/-- Takes an input. Inputs in a row are settled together. -/
def input (r : Reading) (text : String) : Except Refusal Reading :=
  match r.pending with
  | .inputs texts => return { r with pending := .inputs (texts ++ [text]) }
  | _ => do
    let r ← r.settle
    return { r with pending := .inputs [text] }

/-- Takes an argument that is no option: the value of a setting that waits for it,
else an input. -/
def plain (r : Reading) (text : String) : Except Refusal Reading :=
  match r.pending with
  | .setting s none => return { r with pending := .setting s (some text) }
  | _ => r.input text

/-- Takes a setting with the value attached to it, or waits for its value. -/
def takeSetting (r : Reading) (s : Setting) (value : Option String) : Except Refusal Reading := do
  let r ← r.settle
  match value with
  | some value => r.assign s value
  | none => return { r with pending := .setting s none }

def takeSwitch (r : Reading) (w : Switch) : Except Refusal Reading := do
  let r ← r.settle
  match w with
  | .help => throw .helpWanted
  | .version => throw .versionWanted
  | w =>
    let r ← r.note (.switch w)
    return match w with
      | .sequential => { r with settled.sequential := true }
      | .listRules => { r with settled.listRules := true }
      | _ => { r with settled.noColor := true }

/-- The value attached to a short option, with or without an equals sign. -/
def attached (rest : String) : Option String :=
  match rest.toList with
  | [] => none
  | '=' :: cs => some (.ofList cs)
  | cs => some (.ofList cs)

def take (r : Reading) (argument : String) : Except Refusal Reading :=
  if r.onlyInputs then r.input argument
  else match Spelling.of argument with
    | .terminator => return { r with onlyInputs := true }
    | .long name value =>
      match CommandOption.ofLong? name, value with
      | none, _ => throw (.unknownArgument argument)
      | some (.setting s), value => r.takeSetting s value
      | some (.switch _), some _ => throw (.unneededValue argument)
      | some (.switch w), none => r.takeSwitch w
    | .short letter rest =>
      match CommandOption.ofShort? letter with
      | none => throw (.unknownArgument argument)
      | some (.setting s) => r.takeSetting s (attached rest)
      | some (.switch w) => r.takeSwitch w
    | .plain => r.plain argument

end Reading

/-- The arguments that a list of texts stands for. -/
def Arguments.ofTexts (texts : List String) : Except Refusal Arguments := do
  let r ← texts.foldlM Reading.take .start
  let r ← r.settle
  return r.settled

end OpLint
