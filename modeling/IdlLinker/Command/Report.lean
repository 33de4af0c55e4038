import IdlLinker.Command.Invocation
import IdlLinker.Glob.Search
import IdlLinker.Graph.Load
import IdlLinker.Log.Filter

/-!
# Reports

A command says what it does as it goes, and comes to a result or fails. A `Report` holds both; the
steps of a command are put together by `do`, which keeps their notices in order and stops at the
first failure.

`translate` comes to a table of modules only if every selected file of every graph can be linked.
Where graphs share files, the first says where a file stands in the table and the last what its
module is. `check` links the same files, but goes on to the end and then fails if any of them did.
-/

namespace IdlLinker.Command

open Log

/-- Why a command fails. -/
inductive Failure where
  | badPattern (pattern : String) (fault : Glob.PatternFault)
  | noMatch (pattern : String)
  | unsearchable (fault : Glob.SearchFault)
  | unreadable (path : String) (fault : FileFault)
  | malformed (path : String) (error : LoadError)
  | malformedInput (error : LoadError)
  | unlinked (label : String) (file : FileId) (error : LinkError)
  | unlinkedFiles (failed total : Nat)
  | noWorkers (reason : String)
  | notMade (path : String) (fault : FileFault)
  | unwritten (path : String) (fault : FileFault)

namespace Failure

/-- The wordings of a failure and of what caused it, the outermost first. -/
def chain : Failure → List String
  | .badPattern pattern fault => ["invalid glob pattern: " ++ pattern, fault.message]
  | .noMatch pattern => ["glob pattern matched no files: " ++ pattern]
  | .unsearchable fault => [fault.message]
  | .unreadable path fault => ["failed to read graph file " ++ path, fault.message]
  | .malformed path error => ("failed to parse graph file " ++ path) :: error.chain
  | .malformedInput error => "failed to parse graph from stdin" :: error.chain
  | .unlinked label file error => (label ++ ": failed to translate " ++ file) :: error.chain
  | .unlinkedFiles failed total =>
    [toString failed ++ " of " ++ toString total ++ " files failed to translate"]
  | .noWorkers reason => ["failed to start worker pool", reason]
  | .notMade path fault => ["failed to create " ++ path, fault.message]
  | .unwritten path fault => ["failed to write " ++ path, fault.message]

/-- The last line of a command that fails. -/
def line (f : Failure) : String := "error: " ++ String.intercalate ": " f.chain

end Failure

/-- Something that a command says on the way. -/
inductive Notice where
  /-- Said only if the log shows it. -/
  | event (e : Event)
  | line (text : String)

/-- The notices of a command, and what it comes to. -/
structure Report (α : Type) where
  notices : List Notice
  result : Except Failure α

namespace Report

variable {α β : Type}

def tell (notices : List Notice) : Report Unit := ⟨notices, .ok ()⟩

def fail (f : Failure) : Report α := ⟨[], .error f⟩

/-- What has been found out already. -/
def ofExcept (result : Except Failure α) : Report α := ⟨[], result⟩

/-- Goes on with the result of a step. -/
def andThen (r : Report α) (next : α → Report β) : Report β :=
  match r.result with
  | .error f => ⟨r.notices, .error f⟩
  | .ok a => ⟨r.notices ++ (next a).notices, (next a).result⟩

instance : Monad Report where
  pure a := ⟨[], .ok a⟩
  bind := andThen

@[simp] theorem result_pure (a : α) : (pure a : Report α).result = .ok a := rfl

@[simp] theorem notices_pure (a : α) : (pure a : Report α).notices = [] := rfl

theorem result_bind (r : Report α) (next : α → Report β) :
    (r >>= next).result = r.result.bind fun a ↦ (next a).result := by
  obtain ⟨said, result⟩ := r
  cases result <;> rfl

/-- A step says what it says before all that comes after it. -/
theorem notices_prefix_bind (r : Report α) (next : α → Report β) :
    r.notices <+: (r >>= next).notices := by
  obtain ⟨said, result⟩ := r
  cases result with
  | error f => exact List.prefix_refl said
  | ok a => exact List.prefix_append said (next a).notices

end Report

/-! ## The steps of the commands -/

/-- A graph, and how it is called. -/
structure Input where
  label : String
  graph : Graph

/-- The target of the events of the command line. -/
def target : String := "idl_translate::cli"

def loadEvent (input : Input) : Event :=
  ⟨.debug, target, "loaded graph",
    [("input", .plain input.label), number "files" input.graph.files.size]⟩

def repeatEvent (label : String) (file : FileId) : Event :=
  ⟨.warn, target, "file appears in more than one graph; keeping the last",
    [("file", .plain file), ("input", .plain label)]⟩

/-- The graphs, if all of them could be loaded. -/
def collect (loaded : List (Except Failure Input)) : Report (List Input) :=
  loaded.mapM fun result ↦ do
    let input ← Report.ofExcept result
    Report.tell [.event (loadEvent input)]
    return input

/-- Links the selected files of a graph. -/
def link (options : LinkOptions) (input : Input) :
    Report (Table FileId (Except LinkError Module)) := do
  let linked := input.graph.linkEach options
  Report.tell (linked.events.map .event)
  return linked.outcomes

/-- Adds the outcome of a file to the modules. -/
def addOutcome (label : String) (modules : Table FileId Module)
    (outcome : FileId × Except LinkError Module) : Report (Table FileId Module) :=
  match outcome.2 with
  | .error error => .fail (.unlinked label outcome.1 error)
  | .ok module => do
    if (modules.find? outcome.1).isSome then
      Report.tell [.event (repeatEvent label outcome.1)]
    return modules.insert outcome.1 module

/-- The modules of all selected files of all graphs. -/
def translate (options : LinkOptions) (inputs : List Input) : Report (Table FileId Module) :=
  inputs.foldlM
    (fun modules input ↦ do
      (← link options input).entries.foldlM (addOutcome input.label) modules)
    .empty

/-- How many files there were, and how many of them failed. -/
structure Tally where
  total : Nat
  failed : Nat
deriving DecidableEq, Repr

def Tally.add (tally : Tally) (outcome : FileId × Except LinkError Module) : Tally :=
  ⟨tally.total + 1, tally.failed + (if outcome.2.toOption.isSome then 0 else 1)⟩

/-- What a module has at its top level, in words. -/
def contents (m : Module) : String :=
  "(" ++ toString m.structs.length ++ " structs, " ++ toString m.unions.length ++ " unions, " ++
    toString m.enums.length ++ " enums, " ++ toString m.interfaces.length ++ " interfaces, " ++
    toString m.constants.length ++ " constants)"

/-- The line of a file. -/
def outcomeLine (outcome : FileId × Except LinkError Module) : String :=
  match outcome.2 with
  | .ok module => "  ✅ " ++ outcome.1 ++ " " ++ contents module
  | .error error => "  ❌ " ++ outcome.1 ++ ": " ++ error.message

/-- Links the selected files of each graph, says of each whether it can be linked, and counts. -/
def count (options : LinkOptions) (inputs : List Input) : Report Tally :=
  inputs.foldlM
    (fun tally input ↦ do
      let outcomes ← link options input
      Report.tell (.line input.label :: outcomes.entries.map fun e ↦ .line (outcomeLine e))
      return outcomes.entries.foldl Tally.add tally)
    ⟨0, 0⟩

/-- Whether each selected file of each graph can be linked. -/
def check (options : LinkOptions) (inputs : List Input) : Report Unit := do
  let tally ← count options inputs
  if 0 < tally.failed then Report.fail (.unlinkedFiles tally.failed tally.total)
  Report.tell [.line ("all " ++ toString tally.total ++ " files translated")]

/-! ## Workers -/

/-- Workers are refused for a graph. -/
structure Refusal where
  /-- How many graphs have had theirs. -/
  served : Nat
  reason : String
deriving DecidableEq, Repr

/-- What a command comes to that works for some graphs and then has no workers for the next one. -/
def breakOff (i : Invocation) (refusal : Refusal) (inputs : List Input) : Report String := do
  let served := inputs.take refusal.served
  match i.action with
  | .check => let _ ← count i.inputs.options served
  | .translate _ _ => let _ ← translate i.inputs.options served
  Report.fail (.noWorkers refusal.reason)

end IdlLinker.Command
