import IdlLinker.Proofs.Effort

/-!
# What transitive imports hold

The transitive imports of a file are found by a queue, which may hold a name many times and may stop
in the middle at a name that is missing. None of this is seen in what comes out: there are
transitive imports exactly if every file that imports lead to is in the graph, they list these files
and no other, each once, and they say of each what the graph says of it.

## The file itself

Whether a file is among its own transitive imports has nothing to do with where the queue starts. It
is there for the same reason as any other file: a chain of imports leads back to it.

## Headings

A file that is imported is described and not linked. Its description says what the file is, as far
as that stands at its head, and leaves out what the file imports and declares.
-/

open Relation

namespace IdlLinker

open IdlLinker.Graph IdlLinker.Link

/-- A module says what a file is, and nothing of what the file imports or declares. -/
structure Module.IsHeading (m : Module) : Prop where
  imports : m.imports = []
  transitiveImports : m.transitiveImports = .empty
  constants : m.constants = []
  enums : m.enums = []
  structs : m.structs = []
  unions : m.unions = []
  interfaces : m.interfaces = []
  declarations : m.declarations = {}

/-- **A table lists the files that imports lead to, each once, and describes them.** -/
structure ListsImports (g : Graph) (f : FileId) (imports : Table FileId (Module.Import Module)) :
    Prop where
  keys : ∀ n, n ∈ imports.keys ↔ g.LeadsTo f n
  once : imports.keys.Nodup
  /-- The file itself is listed exactly if it lies on a cycle of imports. -/
  cycle : f ∈ imports.keys ↔ ∃ n, g.Imports f n ∧ ReflTransGen g.Imports n f
  /-- Each file has the description that the graph gives, which is its heading. -/
  described : ∀ n, g.LeadsTo f n → ∃ d, imports.find? n = some d ∧ import? g n = .ok d ∧
    d.module.IsHeading

/-- **How the search for the files that imports lead to comes out.** -/
structure Explored (g : Graph) (f : FileId) (source : SourceFile) : Prop where
  /-- The queue comes to its end, after no more turns than there are imports: nothing is waiting, or
  the next name is missing. -/
  ends : ∃ turns waiting seen, Spreads g turns source.imports [] waiting seen ∧
    turns ≤ source.imports.length + importCount g ∧
    (waiting = [] ∧ closure g source = .ok seen ∨
      ∃ name rest, waiting = name :: rest ∧ closure g source = .error (.missingFile name))
  /-- There are no transitive imports exactly if a file is missing that imports lead to. -/
  fails_iff : (∃ e, transitiveImports g source = .error e) ↔
    ∃ n, g.LeadsTo f n ∧ g.files.find? n = none
  /-- The error names such a file. -/
  missing : ∀ e, transitiveImports g source = .error e →
    ∃ n, e = .missingFile n ∧ g.LeadsTo f n ∧ g.files.find? n = none
  /-- Otherwise they list what imports lead to. -/
  lists : ∀ imports, transitiveImports g source = .ok imports → ListsImports g f imports

namespace Link

variable {g : Graph} {f : FileId} {source : SourceFile}
  {imports : Table FileId (Module.Import Module)}

theorem isHeading_metadata (file : SourceFile) : (metadata file).IsHeading :=
  ⟨rfl, rfl, rfl, rfl, rfl, rfl, rfl, rfl⟩

theorem import?_of_find? (closed : transitiveImports g source = .ok imports) {n : FileId}
    {d : Module.Import Module} (found : imports.find? n = some d) :
    d.module.IsHeading ∧ import? g n = .ok d := by
  have once := nodup_closure (closure_of_transitiveImports closed)
  have entry : (n, d) ∈ imports.entries := (Table.find?_eq_some_iff once).mp found
  obtain ⟨file, there, same⟩ := exists_file_of_mem_imports closed entry
  obtain rfl : d = importOf file := same
  refine ⟨isHeading_metadata file, ?_⟩
  rw [import?, show g.files.find? n = some file from there]

theorem listsImports (hf : g.files.find? f = some source)
    (closed : transitiveImports g source = .ok imports) : ListsImports g f imports := by
  have names := closure_of_transitiveImports closed
  have keys : ∀ n, n ∈ imports.keys ↔ g.LeadsTo f n := fun n ↦ mem_closure_iff hf names
  refine ⟨keys, nodup_closure names, ?_, ?_⟩
  · rw [keys]
    exact TransGen.head'_iff
  · intro n path
    obtain ⟨d, found⟩ := Table.mem_keys_iff.mp ((keys n).mpr path)
    obtain ⟨heading, described⟩ := import?_of_find? closed found
    exact ⟨d, found, described, heading⟩

theorem exists_missing_of_error (hf : g.files.find? f = some source) {e : LinkError}
    (failed : transitiveImports g source = .error e) :
    ∃ n, e = .missingFile n ∧ g.LeadsTo f n ∧ g.files.find? n = none := by
  obtain ⟨n, path, missing, same⟩ := closure_error hf (closure_error_of_transitiveImports failed)
  exact ⟨n, same, path, missing⟩

end Link

/-- **The transitive imports of a file are what imports lead to**, on every graph. -/
theorem explored {g : Graph} {f : FileId} {source : SourceFile}
    (hf : g.files.find? f = some source) : Explored g f source where
  ends := by
    obtain ⟨turns, waiting, seen, run, ended⟩ := (bounded_of_file hf).queueEnds
    exact ⟨turns, waiting, seen, run, run.bounded.1, ended⟩
  fails_iff := by
    constructor
    · rintro ⟨e, failed⟩
      obtain ⟨n, -, path, missing⟩ := exists_missing_of_error hf failed
      exact ⟨n, path, missing⟩
    · rintro ⟨n, path, missing⟩
      cases outcome : transitiveImports g source with
      | error e => exact ⟨e, rfl⟩
      | ok imports =>
        obtain ⟨file, found⟩ := exists_file_of_leadsTo hf outcome path
        rw [missing] at found
        cases found
  missing _ := exists_missing_of_error hf
  lists _ := listsImports hf

/-- Files that import each other, themselves, and one of them twice. -/
def Graph.tangle : Graph where
  files := ⟨[
    ("a", { fileName := "a", imports? := some ["b", "c", "b"] }),
    ("b", { fileName := "b", imports? := some ["d", "a"] }),
    ("c", { fileName := "c", imports? := some ["c", "d"] }),
    ("d", { fileName := "d" })]⟩

theorem explored_tangle :
    ∃ source, Graph.tangle.files.find? "a" = some source ∧ Explored Graph.tangle "a" source :=
  ⟨_, rfl, explored rfl⟩

end IdlLinker
