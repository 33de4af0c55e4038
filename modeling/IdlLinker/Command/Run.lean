import IdlLinker.Command.Arguments
import IdlLinker.Command.Report
import IdlLinker.Module.Document

/-!
# Running a command line

A command line is read, the graphs that it names are looked up and loaded, the command is carried
out, and what it comes to is written. All graphs are loaded before any file is linked, and nothing
is written unless the command succeeds.

What files there are is left open: a command line runs on any `Files`. So are the workers that link
the files of a graph side by side. They make no difference to what is linked, but starting them can
fail, and then the command does.

The order is fixed by what can fail. A usage error comes before any file is looked at, a graph that
cannot be loaded before anything is linked, and refused workers or a failed link before anything is
written. So a command that fails has not changed anything, except where writing itself fails
half-way.
-/

namespace IdlLinker.Command

open Log

/-- What a program leaves behind when it ends. -/
structure Outcome where
  /-- The exit status. -/
  exit : Nat
  stdout : String
  stderr : String
deriving DecidableEq, Repr

namespace Outcome

/-- The exit status of a command line that cannot be read. -/
def usageExit : Nat := 2

end Outcome

def lines (texts : List String) : String := String.join (texts.map (· ++ "\n"))

/-- The text of a notice, if it is shown. -/
def Notice.text? (filter : Filter) : Notice → Option String
  | .event e => if filter.shows e then some e.line else none
  | .line text => some text

/-- What a program leaves behind that comes to a text on its standard output. -/
def Report.outcome (filter : Filter) (r : Report String) : Outcome :=
  let said := r.notices.filterMap (·.text? filter)
  match r.result with
  | .ok stdout => ⟨0, stdout, lines said⟩
  | .error f => ⟨1, "", lines (said ++ [f.line])⟩

/-- Checks the graphs, if all of them could be loaded. -/
def checkLoaded (options : LinkOptions) (loaded : List (Except Failure Input)) :
    Report String := do
  check options (← collect loaded)
  return ""

/-- The modules of the graphs as a document, if all of them could be loaded. -/
def translateLoaded (options : LinkOptions) (compact : Bool)
    (loaded : List (Except Failure Input)) : Report String := do
  let modules ← translate options (← collect loaded)
  let document := Module.tableToJson modules
  return if compact then document.compact else document.pretty

/-! ## Finding and loading graphs -/

/-- Where a graph comes from. -/
inductive Source where
  | standardInput
  | file (path : String)
deriving DecidableEq, Repr

section Access

variable {m : Type → Type} [Monad m] (files : Files m)

/-- The sources that an input stands for. -/
def sourcesOf (input : String) : ExceptT Failure m (List Source) := do
  if input = "-" then return [.standardInput]
  if !Glob.isPattern input then return [.file input]
  match Glob.PathPattern.ofText input with
  | .error fault => throw (.badPattern input fault)
  | .ok pattern =>
    match (← (pattern.find files : m _)).mapM id with
    | .error fault => throw (.unsearchable fault)
    | .ok [] => throw (.noMatch input)
    | .ok paths => return paths.map .file

/-- Loads the graph of a source. -/
def load : Source → ExceptT Failure m Input
  | .standardInput => do
    match Graph.shape.loadDrained (← files.input) with
    | .error error => throw (.malformedInput error)
    | .ok graph => return ⟨"<stdin>", graph⟩
  | .file path => do
    match ← files.read path with
    | .error fault => throw (.unreadable path fault)
    | .ok text =>
      match Graph.shape.loadText text with
      | .error error => throw (.malformed path error)
      | .ok graph => return ⟨path, graph⟩

/-- The sources of all inputs, and what comes of loading each of them. -/
def loadAll (inputs : Inputs) : ExceptT Failure m (List (Except Failure Input)) := do
  let sources := (← inputs.patterns.mapM fun input ↦ sourcesOf files input).flatten
  sources.mapM fun source ↦ (load files source).run

/-! ## Workers -/

/-- What answers when workers are wanted: they are there, or they cannot be started, and why. -/
abbrev Workers (m : Type → Type) := Nat → m (Except String Unit)

/-- Asks for workers for one graph after the other, until they are refused. They are wanted only if
more than one file is to be linked at a time. -/
def Workers.refusal? (workers : Workers m) (jobs : Nat) (served : Nat) : Nat → m (Option Refusal)
  | 0 => return none
  | graphs + 1 => do
    if jobs ≤ 1 then return none
    match ← workers jobs with
    | .ok () => workers.refusal? jobs (served + 1) graphs
    | .error reason => return some ⟨served, reason⟩

/-! ## Carrying out commands -/

/-- Writes a document into a file, with the folders that it stands in. -/
def deliver (path text : String) : ExceptT Failure m Unit := do
  if let some parent := Path.parent? path then
    if let .error fault ← files.makeFolders parent then throw (.notMade parent fault)
  if let .error fault ← files.write path text then throw (.unwritten path fault)

/-- Ends with a document: it goes into a file if one is named, else onto the standard output. -/
def finish (out? : Option String) (r : Report String) : m (Report String) := do
  match out?, r.result with
  | some path, .ok document =>
    return { r with result := (← (deliver files path document).run).map fun _ ↦ "" }
  | _, _ => return { r with result := r.result.map (· ++ "\n") }

/-- Carries out a command on what was loaded, when there are workers for all graphs. -/
def carryOut (i : Invocation) (loaded : List (Except Failure Input)) : m (Report String) :=
  match i.action with
  | .check => return checkLoaded i.inputs.options loaded
  | .translate out? compact => finish files out? (translateLoaded i.inputs.options compact loaded)

/-- Carries out a command on what was loaded. The workers of a graph are there while its files are
linked and leave nothing behind, so it makes no difference that they are asked for before the first
graph is linked. Nobody asks for them if some graph could not be loaded. -/
def carryOutWith (workers : Workers m) (i : Invocation) (loaded : List (Except Failure Input)) :
    m (Report String) :=
  match loaded.mapM id with
  | .error _ => carryOut files i loaded
  | .ok graphs => do
    match ← workers.refusal? i.inputs.jobs 0 graphs.length with
    | none => carryOut files i loaded
    | some refusal => return collect loaded >>= breakOff i refusal

/-- Carries out an invocation. -/
def executeWith (workers : Workers m) (i : Invocation) : m (Report String) := do
  if i.noOp then return ⟨[.line i.describe], .ok ""⟩
  match ← (loadAll files i.inputs).run with
  | .error f => return .fail f
  | .ok loaded => carryOutWith files workers i loaded

/-- Carries out an invocation where workers are never refused. -/
def execute (i : Invocation) : m (Report String) := executeWith files (fun _ ↦ return .ok ()) i

def versionLine : String := "idl-translate 0.1.0\n"

def helpText : String :=
  lines
    ["resolve a parse graph into modules for code generators",
      "",
      "Usage: idl-translate [-v] translate -i INPUT.. [OPTIONS]",
      "       idl-translate [-v] check -i INPUT.. [OPTIONS]",
      "",
      "Options:",
      "  -i, --input INPUT..  graphs: paths, quoted glob patterns or '-' for stdin",
      "      --src-root DIR   make module paths relative to this directory",
      "  -j, --jobs N         files to link side by side [default: 0]",
      "      --file ID        only this file (repeatable)",
      "  -o, --out FILE       output file of translate (stdout if omitted)",
      "      --compact        single-line JSON from translate",
      "      --no-op          show the settings and do nothing else",
      "  -v, --verbose        log at debug level",
      "  -h, --help           this text",
      "  -V, --version        the version"]

/-- Runs a command line. `filter?` is the written log filter, if there is one. -/
def runWith (workers : Workers m) (filter? : Option String) (arguments : List String) :
    m Outcome := do
  match Request.ofArguments arguments with
  | .error e => return ⟨Outcome.usageExit, "", "error: " ++ e.message ++ "\n"⟩
  | .ok .help => return ⟨0, helpText, ""⟩
  | .ok .version => return ⟨0, versionLine, ""⟩
  | .ok (.run i) => return (← executeWith files workers i).outcome (.choose filter? i.verbose)

/-- Runs a command line where workers are never refused. -/
def run (filter? : Option String) (arguments : List String) : m Outcome :=
  runWith files (fun _ ↦ return .ok ()) filter? arguments

end Access

end IdlLinker.Command
