import IdlLinker.Command.Run

/-!
# Fixtures

A folder of graphs serves as a test of the linker. Every file of a graph has to link, unless the
name of the graph says that the graph is malformed; then at least one file has to fail. The report
has a line for each graph, in the order of the names, and a last one with the count.

The graphs are looked for by a pattern and read through `Files`, so a folder of the machine and a
`Directory` are tested alike. A graph that cannot be read or loaded counts as failed, whatever its
name: a malformed graph is one that can be loaded and not linked.
-/

namespace IdlLinker.Fixtures

open Command

/-- How the names of malformed graphs begin. -/
def malformedMark : String := "malformed_"

/-- Whether a graph of this name has to fail. -/
def isMalformed (name : String) : Bool := malformedMark.toList.isPrefixOf name.toList

/-- The files of a graph that fail, with the reason. -/
def failures (outcomes : Table FileId (Except LinkError Module)) : List String :=
  outcomes.entries.filterMap fun e ↦
    match e.2 with
    | .ok _ => none
    | .error error => some (e.1 ++ ": " ++ error.message)

/-- What is to be said of a graph, which is an error if it does not do what its name says. -/
def verdict (name : String) (source : Except FileFault String) : Except String String := do
  let text ← source.mapError fun fault ↦ "failed to read: " ++ fault.message
  let graph ← (Graph.shape.loadText text).mapError fun error ↦ "failed to parse: " ++ error.message
  let outcomes := (graph.linkEach { parallel := true }).outcomes
  let failures := failures outcomes
  match isMalformed name, failures.isEmpty with
  | false, true => return toString outcomes.size ++ " files"
  | false, false => throw (String.intercalate "; " failures)
  | true, false => return "failed as expected: " ++ String.intercalate "; " failures
  | true, true => throw "expected a translation failure"

def verdictLine (name : String) : Except String String → String
  | .ok summary => "✅ " ++ name ++ " " ++ summary
  | .error reason => "❌ " ++ name ++ ": " ++ reason

/-- The report on graphs by name. -/
def report (verdicts : List (String × Except String String)) : Outcome :=
  let failed := verdicts.countP fun v ↦ !v.2.toOption.isSome
  let said := verdicts.map fun v ↦ verdictLine v.1 v.2
  let total := toString verdicts.length
  if 0 < failed then
    ⟨1, "", lines (said ++ [toString failed ++ " of " ++ total ++ " fixtures failed"])⟩
  else ⟨0, "", lines (said ++ [total ++ " fixtures passed"])⟩

/-- Tests all graphs that stand in a folder; what cannot be searched is left out. -/
def run {m : Type → Type} [Monad m] (files : Files m) (folder : String) : m Outcome := do
  match Glob.PathPattern.ofText (folder ++ "/*.json") with
  | .error fault => return ⟨1, "", lines ["❌ bad fixture pattern: " ++ fault.message]⟩
  | .ok pattern =>
    let paths := (← pattern.find files).filterMap Except.toOption
    let verdicts ← paths.mapM fun path ↦ do
      let name := (Path.fileName? path).getD ""
      return (name, verdict name (← files.read path))
    return report verdicts

end IdlLinker.Fixtures
