import IdlLinker.Link.File

/-!
# Linking a whole graph

Every selected file of a graph is linked by itself, and the outcomes are reported in the order of
the selection, or of the graph when nothing is selected. A file that fails hides no other. Whether
the files are linked side by side makes no difference to any outcome.

Paths can be given as they are seen from a source root, at every depth of the import tables; the
keys of those tables stay the names of the files in the graph.

The modules of a selection are asked for in two ways. `linkEach` keeps every outcome, and a failed
file is one among others; `linkAll` wants all modules or none, and then the first failure in the
order of the report counts. Both are made from the same outcomes, so they cannot disagree about a
file.
-/

namespace IdlLinker

open Log

namespace Module

mutual

/-- The same module with every path as it is seen from a directory. -/
def relocate (root : String) : Module → Module
  | ⟨name, specifiedName, path, moduleNamespace, attributes, imports, ⟨entries⟩, constants, enums,
      structs, unions, interfaces, declarations⟩ =>
    ⟨name, specifiedName, Path.relative path root, moduleNamespace, attributes, imports,
      ⟨relocateImports root entries⟩, constants, enums, structs, unions, interfaces, declarations⟩

/-- The same imports with every path as it is seen from a directory. -/
def relocateImports (root : String) : List (FileId × Import Module) → List (FileId × Import Module)
  | [] => []
  | (file, ⟨moduleName, moduleNamespace, module⟩) :: rest =>
    (file, ⟨moduleName, moduleNamespace, module.relocate root⟩) :: relocateImports root rest

end

end Module

/-- What to link, and how. -/
structure LinkOptions where
  /-- The directory that paths are made relative to; without it they stay as they are. -/
  root? : Option String := none
  /-- Whether files are linked side by side. -/
  parallel : Bool := false
  /-- The files to link; all files of the graph when there are none. -/
  files : List FileId := []

/-- The selected files in order, repetitions included. -/
def LinkOptions.selected (options : LinkOptions) (g : Graph) : List FileId :=
  if options.files.isEmpty then g.files.keys else options.files

/-- The outcomes of all selected files. -/
structure LinkedGraph where
  /-- Each outcome under the name of its file. -/
  outcomes : Table FileId (Except LinkError Module)
  /-- What happened, in order. -/
  events : List Event

namespace Graph

/-- Links one selected file, and relocates its module if there is a root. -/
def linkSelected (g : Graph) (options : LinkOptions) (file : FileId) : Linked :=
  let linked := g.link file
  match options.root? with
  | none => linked
  | some root => { linked with result := linked.result.map (Module.relocate root) }

def beginEvent (options : LinkOptions) (selected : List FileId) : Event :=
  ⟨.debug, "idl_translate::session", "translating graph",
    [number "files" selected.length,
      ("parallel", .plain (if options.parallel then "true" else "false"))]⟩

/-- Links every selected file. A file that is selected more than once is reported once, at its first
place. -/
def linkEach (g : Graph) (options : LinkOptions) : LinkedGraph :=
  let selected := options.selected g
  let linked := selected.map fun file ↦ (file, g.linkSelected options file)
  { outcomes := .ofList (linked.map fun e ↦ (e.1, e.2.result))
    events := beginEvent options selected :: linked.flatMap fun e ↦ e.2.events }

/-- The modules of all selected files, or the error of the first file that fails. -/
def linkAll (g : Graph) (options : LinkOptions) : Except LinkError (Table FileId Module) := do
  return ⟨← (g.linkEach options).outcomes.entries.mapM fun e ↦ return (e.1, ← e.2)⟩

end Graph

end IdlLinker
