import IdlLinker.Link.Assemble

/-!
# Linking a file

To link a file is to find the files that its imports lead to, to walk the graph from its top-level
declarations, and to assemble the module. The outcome is the module or the first error on the way,
and the events of the way in any case.

The steps fail in this order and none of them goes back: if the file or an import is missing,
nothing is walked, and if the walk ends early, nothing is assembled. Each failure leaves the events
of the steps before it, and one more that names the error. `Graph.link` keeps the events beside the
outcome, and `Graph.module` is the outcome alone, which is what nearly everything is proved about.
-/

namespace IdlLinker

open Log

/-- What came of linking a file. -/
structure Linked where
  /-- The module, or why there is none. -/
  result : Except LinkError Module
  /-- What happened, in order. -/
  events : List Event

namespace Link

/-- The target of the events of linking. -/
def target : String := "idl_translate::translate"

def beginEvent (file : FileId) : Event :=
  ⟨.debug, target, "translating", [("file", .plain file)]⟩

def closureEvent (fileName : String) (size : Nat) : Event :=
  ⟨.trace, "idl_translate::translate::imports", "import closure",
    [("file", .plain fileName), number "closure" size]⟩

def successEvent (file : FileId) (v : Visits) : Event :=
  ⟨.debug, target, "translated",
    [("file", .plain file), number "types" v.types.size, number "constants" v.constants.size,
      number "enum_values" v.members.size]⟩

def failureEvent (file : FileId) (e : LinkError) : Event :=
  ⟨.debug, target, "translation failed", [("file", .plain file), ("error", .plain e.message)]⟩

/-- The module of a file before anything is declared in it. -/
def outline (file : Graph.SourceFile) (imports : Table FileId (Module.Import Module)) : Module :=
  { metadata file with
    imports := file.imports.map fun name ↦ ⟨imports.index name⟩
    transitiveImports := imports }

/-- The outcome of a link that failed. -/
def failed (file : FileId) (e : LinkError) (events : List Event) : Linked :=
  ⟨.error e, (failureEvent file e :: events).reverse⟩

end Link

open Link in
/-- Links one file of a graph. -/
def Graph.link (g : Graph) (file : FileId) : Linked :=
  match g.files.find? file with
  | none => failed file (.missingFile file) []
  | some source =>
    let events := [beginEvent file]
    match transitiveImports g source with
    | .error e => failed file e events
    | .ok imports =>
      let events := closureEvent source.fileName imports.size :: events
      let s : Scope := ⟨file, outline source imports⟩
      match walk g s ((requirementsOfFile source).map .meet) { events } with
      | .error failure => failed file failure.error failure.events
      | .ok v =>
        ⟨.ok ((Numbering.ofVisits s v).module (source.declared?.getD {})),
          (successEvent file v :: v.events).reverse⟩

/-- The module of one file of a graph. -/
def Graph.module (g : Graph) (file : FileId) : Except LinkError Module := (g.link file).result

end IdlLinker
