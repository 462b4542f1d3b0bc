import Stencil.CommandLine.Arguments
import Stencil.Document
import Stencil.Engine

/-! The command line: rendering of a template, and reports on one. Files, the standard input and
the surroundings are handed in, what is to be printed is handed back. -/
namespace Stencil.CommandLine

/-! ### Requests -/

inductive Command
  | render
  | analyze
  | tokens
  | export
deriving DecidableEq, Repr

namespace Command

def all : List Command := [render, analyze, tokens, .export]

def word : Command → String
  | render => "render"
  | analyze => "analyze"
  | tokens => "tokens"
  | .export => "export"

end Command

def helpSwitch : Switch := ⟨["-h", "--help"], "help", .stop .help⟩

/-- Switches before the word of the command. -/
def outerSwitches : List Switch :=
  [helpSwitch, ⟨["-v", "--version"], "version", .stop .version⟩]

def commonSwitches : List Switch :=
  [helpSwitch, ⟨["--config"], "config", .value []⟩, ⟨["--strict"], "strict", .mark⟩]

def switchesOf : Command → List Switch
  | .render => commonSwitches ++ [⟨["--context"], "context", .value []⟩,
    ⟨["--var"], "var", .value []⟩, ⟨["--no-escape"], "no_escape", .mark⟩]
  | .export => commonSwitches ++
    [⟨["--format"], "format", .value (ExportFormat.all.map ExportFormat.label)⟩]
  | _ => commonSwitches

/-- A request: the command, the path of the template and the switches. -/
structure Request where
  command : Command
  template : String
  said : Said

def readRequest (args : List String) : Except Stop Request := do
  let (surplus, word, rest) ← splitCommand false (← Look.ofArguments outerSwitches args)
  match Command.all.find? (·.word == word) with
  | none => throw .misuse
  | some command =>
    let said ← Said.ofArguments (switchesOf command) rest
    if surplus || said.surplus then throw .misuse
    return ⟨command, said.positional.getD "", said⟩

/-! ### Files -/

/-- What the command line works with. -/
structure Console where
  surroundings : Surroundings
  /-- The content of a file, by its plain path. -/
  file : String → Option String
  input : String
  /-- Whether templates are stored, as set from outside. -/
  storing : Option String

/-- A path without empty and idle parts. -/
def plainPath (path : String) : String :=
  let parts := (Text.pieces ['/'] path.toList).filter fun part => !part.isEmpty && part != ['.']
  let slashes := (path.toList.takeWhile (· == '/')).length
  let root := if slashes == 0 then [] else if slashes == 2 then ['/', '/'] else ['/']
  let plain := root ++ Text.glueTogether ['/'] parts
  if plain.isEmpty then "." else String.ofList plain

def contentOf (console : Console) (path : String) : Option String :=
  (console.file (plainPath path)).map fun text =>
    String.ofList (Document.unifyLineEnds text.toList)

def standardInput : String := "-"

/-- The paths of the files that a request reads. -/
def Request.paths (request : Request) : List String :=
  ([request.template].filter (· != standardInput) ++ (request.said.all "config" ++
    request.said.all "context").filterMap id).map plainPath

def readTemplate (console : Console) (path : String) : Except Failure String :=
  if path == standardInput then
    .ok (String.ofList (Document.unifyLineEnds console.input.toList))
  else match contentOf console path with
    | some text => .ok text
    | none => .error (.fault (.complaint s!"Template file not found: {plainPath path}"))

/-- A file that holds a dictionary; one that holds nothing holds an empty one. -/
def readMapping (console : Console) (path : String) : Except Failure (Dict Value) := do
  match contentOf console path with
  | none => Options.refuse (.fileNotFound (plainPath path))
  | some text =>
    match ← liftFault (Document.read text.toList) with
    | .dict entries => return entries
    | other =>
      if other.truthy then Options.refuse (.notMapping (plainPath path)) else return []

/-- Options from a file, at the top or in a section of their own. -/
def readOptions (console : Console) (path : String) : Except Failure Options := do
  let mapping ← readMapping console path
  match Dict.get? mapping "engine" with
  | none => Options.ofDict mapping
  | some (.dict part) => Options.ofDict part
  | some _ => Options.refuse (.sectionNotMapping (plainPath path))

/-! ### Settings -/

/-- A switch that is given and not empty. -/
def given? (request : Request) (key : String) : Option String :=
  (request.said.last? key).join.filter (!·.isEmpty)

def changes (request : Request) : Dict Value :=
  (if request.said.has "strict" then [("strict_mode", .bool true)] else []) ++
    (if request.said.has "no_escape" then [("auto_escape", .bool false)] else [])

def optionsOf (console : Console) (request : Request) : Except Failure Options := do
  let options ← match given? request "config" with
    | some path => readOptions console path
    | none => pure .standard
  return (← options.replace (changes request)).withCacheSetting console.storing

/-- How a value that a switch does not have is shown. -/
def absentValue : String := "[]"

/-- A name and its value, which is JSON or else a plain text. -/
def binding (given : Option String) : Except Failure (String × Value) := do
  let pair := given.getD absentValue
  let complain {α : Type} (what : String) : Except Failure α :=
    .error (.fault (.complaint s!"Invalid --var '{pair}'. {what}"))
  match Text.breakAt ['='] pair.toList with
  | none => complain "Expected KEY=VALUE"
  | some (name, value) =>
    let key := Text.trim name
    if key.isEmpty then complain "Empty key"
    let read ← liftFault (Json.read value)
    return (String.ofList key, read.getD (.text (String.ofList value)))

def contextOf (console : Console) (request : Request) : Except Failure (Dict Value) := do
  let base ← match given? request "context" with
    | some path => readMapping console path
    | none => pure []
  return Dict.update base (← (request.said.all "var").mapM binding)

/-! ### Running -/

/-- What is printed, and the code that the program ends with. -/
structure Printed where
  code : Nat
  output : String
  errors : String

def success : Nat := 0
def findings : Nat := 1
def failed : Nat := 2

/-- Text with one line end after it. -/
def asLine (text : String) : String :=
  String.ofList ((text.toList.reverse.dropWhile (· == '\n')).reverse ++ ['\n'])

/-- A template rendered with its context. Problems are printed as warnings. -/
def render (engine : Engine Unit) (source : String) (name : Option String) (context : Dict Value) :
    Except Failure String × String :=
  match (Engine.compile source name).run (engine, ()) with
  | (.error e, _) => (.error e, "")
  | (.ok template, session) =>
    let shown := (name.filter (!·.isEmpty)).getD "<template>"
    let warnings := template.diagnostics.map fun d => s!"[WARNING] {shown}: {d.describe}\n"
    (((Engine.call template context).run session).1, String.join warnings)

/-- What a failure prints. A fault that is not one of values goes on to whoever runs the
program. -/
def ofFailure (errors : String) : Failure → Except Fault Printed
  | .fault f =>
    if f.kind == .value then .ok ⟨failed, "", errors ++ line f.message⟩ else .error f
  | .template e => .ok ⟨failed, "", errors ++ line e.describe⟩
where
  line (message : String) : String := String.ofList (Text.trimEnd message.toList ++ ['\n'])

/-- The format of an export. -/
def formatOf (request : Request) : Except Fault ExportFormat :=
  match request.said.last? "format" with
  | none => .ok .ast
  | some none => .error .noFormat
  | some (some word) => ExportFormat.ofText word

/-- The output of a report, with the code of success or of findings. -/
def report (request : Request) (format : ExportFormat) (name : Option String)
    (analysis : Analysis) : Except Fault Printed := do
  match request.command with
  | .analyze =>
    let code := if analysis.valid then success else findings
    return ⟨code, (← (analysis.report name).pretty) ++ "\n", ""⟩
  | .tokens => return ⟨success, (← analysis.tokensDocument.pretty) ++ "\n", ""⟩
  | _ => return ⟨success, asLine (← analysis.export format), ""⟩

def perform (console : Console) (request : Request) : Except Failure (Except Fault Printed) := do
  let options ← optionsOf console request
  let source ← readTemplate console request.template
  let name := if request.template == standardInput then none else some request.template
  if request.command == .render then
    let context ← contextOf console request
    let engine : Engine Unit := .create console.surroundings options
    let (result, errors) := render engine source name context
    return match result with
      | .ok output => .ok ⟨success, output, errors⟩
      | .error failure => ofFailure errors failure
  else
    let format ← liftFault (formatOf request)
    let analysis ← Analysis.ofText options source
    return .ok (← liftFault (report request format name analysis))

/-- Runs a request. -/
def run (console : Console) (request : Request) : Except Fault Printed :=
  match perform console request with
  | .ok printed => printed
  | .error failure => ofFailure "" failure

/-! ### Stops -/

def versionText : String := s!"tplc {version}\n"

def helpText : String :=
  "usage: tplc [-h] [-v] [render | analyze | tokens | export] ...\n"

/-- What is printed when the command line ends before its command runs. -/
def Stop.printed : Stop → Printed
  | .misuse => ⟨failed, "", helpText⟩
  | .help => ⟨success, helpText, ""⟩
  | .version => ⟨success, versionText, ""⟩

end Stencil.CommandLine
