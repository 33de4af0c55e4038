import IdlLinker.Proofs.Descriptions
import IdlLinker.Proofs.Levels

/-!
# Direct imports

A module says twice what its file imports: all files that imports lead to are in a table, and the
direct imports are positions in this table, one for each import as the source has it. A position is
found by looking for the name. That can fail, and then a file would be missing; a position can be
followed back, and if nothing stood there, the import would be dropped without a word.

Neither happens. The table is made by following the imports, so that every name is in it by the time
that positions are looked for: `Link.outline?`, which looks for them one by one, is
`Link.outline`, which does not expect to fail. How often a file is imported, and whether it imports
itself or is reached on another way as well, makes no difference.

Where no import is repeated, the positions count up from zero, because the table begins with the
first level of imports.
-/

namespace IdlLinker

open IdlLinker.Graph IdlLinker.Link

/-- **The direct imports of a module stand for names, one for each and in order.** -/
structure Module.ListsDirectImports (g : Graph) (names : List FileId) (m : Module) : Prop where
  /-- Each position is that of its name. -/
  resolved : List.Forall₂
    (fun name id ↦ (m.transitiveImports.entry? id.index).map Prod.fst = some name)
    names m.imports
  /-- No position is lost on the way to the descriptions. -/
  kept : m.directImports.map some = m.imports.map m.import?
  /-- Each description is what the graph says of the file of its name. -/
  described : List.Forall₂ (fun name d ↦ Link.import? g name = .ok d)
    names m.directImports
  /-- Names that are not repeated are numbered in order. -/
  counted : names.Nodup → m.imports.map ImportId.index = List.range names.length

namespace Link

/-- The position of a file among imports, where it has one. -/
def position? (imports : Table FileId (Module.Import Module)) (name : FileId) :
    Except LinkError ImportId :=
  match imports.find? name with
  | none => .error (.missingFile name)
  | some _ => .ok ⟨imports.index name⟩

/-- The module of a file before anything is declared in it, unless an import cannot be found. -/
def outline? (file : SourceFile) (imports : Table FileId (Module.Import Module)) :
    Except LinkError Module := do
  let ids ← file.imports.mapM (position? imports)
  return { metadata file with
    imports := ids
    transitiveImports := imports }

variable {g : Graph} {source : SourceFile} {imports : Table FileId (Module.Import Module)}
  {name : FileId}

theorem exists_import_of_mem (closed : transitiveImports g source = .ok imports)
    (direct : name ∈ source.imports) : ∃ d, imports.find? name = some d := by
  have names := spread_ok (closure_of_transitiveImports closed)
  exact Table.mem_keys_iff.mp (names.covers direct)

theorem mapM_position?_eq (closed : transitiveImports g source = .ok imports) :
    source.imports.mapM (position? imports) =
      .ok (source.imports.map fun name ↦ ⟨imports.index name⟩) := by
  rw [mapM_eq_ok_iff, List.forall₂_map_right_iff, List.forall₂_same]
  intro name direct
  obtain ⟨d, found⟩ := exists_import_of_mem closed direct
  rw [position?, found]

/-- **To look for the direct imports never fails.** -/
theorem outline?_eq (closed : transitiveImports g source = .ok imports) :
    outline? source imports = .ok (outline source imports) := by
  rw [outline?, mapM_position?_eq closed]
  rfl

theorem index_eq_range (closed : transitiveImports g source = .ok imports)
    (once : source.imports.Nodup) :
    source.imports.map imports.index = List.range source.imports.length := by
  have first := eraseDups_prefix_closure (closure_of_transitiveImports closed)
  have same : source.imports.eraseDups = source.imports := by
    have all : fresh [] source.imports = source.imports := fresh_of_nodup once (by simp)
    simpa [fresh] using all
  rw [same] at first
  obtain ⟨others, keys⟩ := first
  apply List.ext_getElem
  · rw [List.length_map, List.length_range]
  · intro i inside _
    rw [List.length_map] at inside
    rw [List.getElem_map, List.getElem_range, Table.index, ← keys,
      List.idxOf_append_of_mem (List.getElem_mem inside), once.idxOf_getElem]

end Link

theorem forall₂_filterMap {α β : Type} {f : α → Option β} {p : α → β → Prop} {xs : List α}
    (found : ∀ x ∈ xs, ∃ y, f x = some y ∧ p x y) :
    List.Forall₂ (fun x y ↦ f x = some y ∧ p x y) xs (xs.filterMap f) := by
  induction xs with
  | nil => exact .nil
  | cons x xs ih =>
    obtain ⟨⟨y, this, related⟩, others⟩ := List.forall_mem_cons.mp found
    rw [List.filterMap_cons_some this]
    exact .cons ⟨this, related⟩ (ih others)

theorem Module.listsDirectImports {g : Graph} {source : SourceFile} {m : Module}
    (closed : Link.transitiveImports g source = .ok m.transitiveImports)
    (listed : m.imports = source.imports.map fun name ↦ ⟨m.transitiveImports.index name⟩) :
    m.ListsDirectImports g source.imports := by
  -- What stands at the position of a direct import is its entry.
  have entry {name : FileId} (direct : name ∈ source.imports) :
      ∃ d, m.transitiveImports.entry? (m.transitiveImports.index name) = some (name, d) ∧
        Link.import? g name = .ok d := by
    obtain ⟨d, found⟩ := exists_import_of_mem closed direct
    exact ⟨d, Table.getElem?_index found, (import?_of_find? closed found).2⟩
  have descriptions : List.Forall₂
      (fun name d ↦ m.import? ⟨m.transitiveImports.index name⟩ = some d ∧
        Link.import? g name = .ok d) source.imports m.directImports := by
    rw [Module.directImports, listed, List.filterMap_map]
    apply forall₂_filterMap
    intro name direct
    obtain ⟨d, stands, described⟩ := entry direct
    refine ⟨d, ?_, described⟩
    rw [Module.import?, stands]
    rfl
  constructor
  · rw [listed, List.forall₂_map_right_iff, List.forall₂_same]
    intro name direct
    obtain ⟨d, stands, -⟩ := entry direct
    rw [stands]
    rfl
  · symm
    rw [listed, ← List.forall₂_eq_eq_eq, List.forall₂_map_left_iff, List.forall₂_map_left_iff,
      List.forall₂_map_right_iff]
    exact descriptions.imp fun _ _ h ↦ h.1
  · exact descriptions.imp fun _ _ h ↦ h.2
  · intro once
    rw [listed, List.map_map]
    exact index_eq_range closed once

/-- **The direct imports of a module are complete and in source order**, and to look for them does
not fail once the transitive imports are known. -/
theorem directImports_inOrder (g : Graph) (f : FileId) :
    (∀ m, g.module f = .ok m →
      ∃ source, g.files.find? f = some source ∧ m.ListsDirectImports g source.imports) ∧
    ∀ source imports, transitiveImports g source = .ok imports →
      outline? source imports = .ok (outline source imports) := by
  constructor
  · intro m linked
    obtain ⟨source, imports, v, links, rfl⟩ := module_eq_ok_iff.mp linked
    exact ⟨source, links.file, Module.listsDirectImports links.closed rfl⟩
  · intro source imports closed
    exact outline?_eq closed

theorem directImports_inOrder_tangle :
    ∃ m, Graph.tangle.module "a" = .ok m ∧
      ∃ source, Graph.tangle.files.find? "a" = some source ∧
        m.ListsDirectImports Graph.tangle source.imports ∧
        ∃ imports, transitiveImports Graph.tangle source = .ok imports ∧
          outline? source imports = .ok (outline source imports) := by
  obtain ⟨m, linked⟩ := exists_module_of_isSome (g := Graph.tangle) (f := "a") (by cbv)
  obtain ⟨complete, unfailing⟩ := directImports_inOrder Graph.tangle "a"
  obtain ⟨source, file, lists⟩ := complete m linked
  obtain ⟨source', file', -, closed⟩ := exists_file_of_module linked
  obtain rfl : source = source' := Option.some.inj (file.symm.trans file')
  exact ⟨m, linked, source, file, lists, _, closed, unfailing source _ closed⟩

end IdlLinker
