import IdlLinker.Session
import Mathlib.Data.List.Forall2

/-!
# Paths as they are seen from a directory

To relocate a module is to write its path as it is seen from a directory, and likewise the paths of
all modules nested in its import tables, however deep. This module says that nothing else happens.

A place in a module is a list of positions (`Module.nested?`): the first says which import to go
into, the next which import of that one, and so on. `RewritesPaths f m m'` compares two modules at
all places at once: the same places lead somewhere, the path there is `f` of what it was, and what
else there is to the module there is the same. No part of a module is beyond such a comparison, so
it leaves no room for two modules `m'` (`RewritesPaths.unique`), and relocation can be said to be
the only change of this kind.

Relocating once more starts from the paths as they are by then. So in a row of relocations each path
goes through all of them, one after the other.
-/

namespace IdlLinker.Module

/-! ## What relocation does -/

/-- A description with its path as it is seen from a directory. -/
def Import.relocate (root : String) (d : Import Module) : Import Module :=
  { d with module := d.module.relocate root }

theorem relocateImports_eq (root : String) (entries : List (FileId × Import Module)) :
    relocateImports root entries = entries.map fun e ↦ (e.1, e.2.relocate root) := by
  induction entries with
  | nil => rw [relocateImports, List.map_nil]
  | cons e rest ih =>
    rw [relocateImports, ih]
    rfl

/-- Relocation is of the path of a module and of the descriptions of what it imports. -/
theorem relocate_eq (root : String) (m : Module) :
    m.relocate root = { m with
      path := Path.relative m.path root
      transitiveImports := m.transitiveImports.mapValues (Import.relocate root) } := by
  obtain ⟨_, _, _, _, _, _, ⟨entries⟩, _, _, _, _, _, _⟩ := m
  rw [relocate, relocateImports_eq]
  rfl

/-! ## Places -/

/-- The module at a place: of the module itself, or of the import at the first position, and from
there on. -/
def nested? : Module → List Nat → Option Module
  | m, [] => some m
  | m, i :: place => (m.import? ⟨i⟩).bind fun d ↦ d.module.nested? place

/-- What a module says of its imports without their modules: the keys in order, with the name and
the namespace of each file. -/
def importLabels (m : Module) : List (FileId × String × String) :=
  m.transitiveImports.entries.map fun e ↦ (e.1, e.2.moduleName, e.2.moduleNamespace)

/-- Two modules have everything in common but perhaps their paths, and the modules of their
imports. -/
structure SameBesidesPath (m m' : Module) : Prop where
  name : m'.name = m.name
  specifiedName : m'.specifiedName = m.specifiedName
  moduleNamespace : m'.moduleNamespace = m.moduleNamespace
  attributes : m'.attributes = m.attributes
  imports : m'.imports = m.imports
  importLabels : m'.importLabels = m.importLabels
  constants : m'.constants = m.constants
  enums : m'.enums = m.enums
  structs : m'.structs = m.structs
  unions : m'.unions = m.unions
  interfaces : m'.interfaces = m.interfaces
  declarations : m'.declarations = m.declarations

/-- The same places lead somewhere; each path is what a function makes of the path there was, and
nothing else is different. -/
def RewritesPaths (f : String → String) (m m' : Module) : Prop :=
  ∀ place, Option.Rel (fun n n' ↦ n'.path = f n.path ∧ n.SameBesidesPath n')
    (m.nested? place) (m'.nested? place)

variable {f f' : String → String} {m m' m'' : Module} {root : String}

theorem SameBesidesPath.refl (m : Module) : m.SameBesidesPath m :=
  ⟨rfl, rfl, rfl, rfl, rfl, rfl, rfl, rfl, rfl, rfl, rfl, rfl⟩

theorem SameBesidesPath.symm (h : m.SameBesidesPath m') : m'.SameBesidesPath m :=
  ⟨h.1.symm, h.2.symm, h.3.symm, h.4.symm, h.5.symm, h.6.symm, h.7.symm, h.8.symm, h.9.symm,
    h.10.symm, h.11.symm, h.12.symm⟩

theorem SameBesidesPath.trans (h : m.SameBesidesPath m') (h' : m'.SameBesidesPath m'') :
    m.SameBesidesPath m'' :=
  ⟨h'.1.trans h.1, h'.2.trans h.2, h'.3.trans h.3, h'.4.trans h.4, h'.5.trans h.5, h'.6.trans h.6,
    h'.7.trans h.7, h'.8.trans h.8, h'.9.trans h.9, h'.10.trans h.10, h'.11.trans h.11,
    h'.12.trans h.12⟩

/-! ## Two modules that are the same at all places -/

theorem RewritesPaths.import? (h : m.RewritesPaths f m') {i : Nat} {d d' : Import Module}
    (found : m.import? ⟨i⟩ = some d) (found' : m'.import? ⟨i⟩ = some d') :
    d.module.RewritesPaths f d'.module := by
  intro place
  have here := h (i :: place)
  rwa [nested?, nested?, found, found', Option.bind_some, Option.bind_some] at here

theorem import?_of_getElem? {e : FileId × Import Module} {i : Nat}
    (h : m.transitiveImports.entries[i]? = some e) : m.import? ⟨i⟩ = some e.2 := by
  rw [Module.import?, Table.entry?, h, Option.map_some]

theorem RewritesPaths.top (h : m.RewritesPaths f m') :
    m'.path = f m.path ∧ m.SameBesidesPath m' := by
  have here := h []
  rw [nested?, nested?] at here
  obtain ⟨here⟩ := here
  exact here

theorem RewritesPaths.entries (h : m.RewritesPaths f m') :
    List.Forall₂ (fun e e' ↦ (e'.1, e'.2.moduleName, e'.2.moduleNamespace) =
        (e.1, e.2.moduleName, e.2.moduleNamespace) ∧ e.2.module.RewritesPaths f e'.2.module)
      m.transitiveImports.entries m'.transitiveImports.entries := by
  have labels := h.top.2.importLabels
  rw [importLabels, importLabels] at labels
  have length := congrArg List.length labels
  rw [List.length_map, List.length_map] at length
  -- The keys are the same, so the tables have equally many entries.
  refine List.forall₂_iff_get.mpr ⟨length.symm, fun i inside inside' ↦ ⟨?_, ?_⟩⟩
  · simpa [inside, inside'] using congrArg (·[i]?) labels
  · exact h.import? (import?_of_getElem? (List.getElem?_eq_getElem inside))
      (import?_of_getElem? (List.getElem?_eq_getElem inside'))

mutual

/-- **A module is what stands at its places.** -/
theorem eq_of_rewritesPaths_id : (m m' : Module) → m.RewritesPaths id m' → m' = m
  | ⟨_, _, _, _, _, _, ⟨entries⟩, _, _, _, _, _, _⟩,
    ⟨_, _, _, _, _, _, ⟨entries'⟩, _, _, _, _, _, _⟩, h => by
    -- Only the import tables are not compared at the top.
    obtain ⟨path, name, specifiedName, moduleNamespace, attributes, imports, -, constants, enums,
      structs, unions, interfaces, declarations⟩ := h.top
    have transitive := entries_eq_of_rewritesPaths_id entries entries' h.entries
    subst path name specifiedName moduleNamespace attributes imports constants enums structs unions
      interfaces declarations transitive
    rfl

/-- Import tables are the same if their modules are the same at all places. -/
theorem entries_eq_of_rewritesPaths_id : (entries entries' : List (FileId × Import Module)) →
    List.Forall₂ (fun e e' ↦ (e'.1, e'.2.moduleName, e'.2.moduleNamespace) =
        (e.1, e.2.moduleName, e.2.moduleNamespace) ∧ e.2.module.RewritesPaths id e'.2.module)
      entries entries' → entries' = entries
  | [], _, .nil => rfl
  | (_, ⟨_, _, module⟩) :: rest, (_, ⟨_, _, module'⟩) :: rest', .cons ⟨label, same⟩ others => by
    have first := eq_of_rewritesPaths_id module module' same
    have later := entries_eq_of_rewritesPaths_id rest rest' others
    subst first later
    cases label
    rfl

end

/-- What becomes of a module is settled by what becomes of the paths in it. -/
theorem RewritesPaths.unique (h : m.RewritesPaths f m') (h' : m.RewritesPaths f m'') :
    m'' = m' := by
  refine eq_of_rewritesPaths_id m' m'' fun place ↦ ?_
  have here := h place
  have here' := h' place
  -- Both paths at a place are `f` of the one that `m` has there.
  generalize m.nested? place = n at here here'
  generalize m'.nested? place = n' at here ⊢
  generalize m''.nested? place = n'' at here' ⊢
  rcases here with ⟨path, same⟩ | -
  · rcases here' with ⟨path', same'⟩
    exact .some ⟨path'.trans path.symm, same.symm.trans same'⟩
  · rcases here' with - | -
    exact .none

/-! ## Relocation at all places -/

theorem import?_relocate (root : String) (m : Module) (id : ImportId) :
    (m.relocate root).import? id = (m.import? id).map (Import.relocate root) := by
  rw [relocate_eq, Module.import?, Module.import?, Table.entry?, Table.entry?, Table.mapValues,
    List.getElem?_map, Option.map_map, Option.map_map]
  rfl

/-- **To relocate a module is to relocate it at every place.** -/
theorem nested?_relocate (root : String) (m : Module) (place : List Nat) :
    (m.relocate root).nested? place = (m.nested? place).map (relocate root) := by
  induction place generalizing m with
  | nil => rw [nested?, nested?, Option.map_some]
  | cons i place ih =>
    rw [nested?, nested?, import?_relocate, Option.bind_map, Option.map_bind]
    exact congrArg (Option.bind _) (funext fun d ↦ ih d.module)

theorem path_relocate (root : String) (m : Module) :
    (m.relocate root).path = Path.relative m.path root := by
  rw [relocate_eq]

theorem sameBesidesPath_relocate (root : String) (m : Module) :
    m.SameBesidesPath (m.relocate root) := by
  rw [relocate_eq]
  refine ⟨rfl, rfl, rfl, rfl, rfl, ?_, rfl, rfl, rfl, rfl, rfl, rfl⟩
  rw [importLabels, importLabels, Table.mapValues, List.map_map]
  rfl

theorem rewritesPaths_relocate (root : String) (m : Module) :
    m.RewritesPaths (Path.relative · root) (m.relocate root) := by
  intro place
  rw [nested?_relocate]
  cases m.nested? place with
  | none => exact .none
  | some n => exact .some ⟨path_relocate root n, sameBesidesPath_relocate root n⟩

/-! ## One relocation after the other -/

theorem RewritesPaths.refl (m : Module) : m.RewritesPaths id m := by
  intro place
  cases m.nested? place with
  | none => exact .none
  | some n => exact .some ⟨rfl, .refl n⟩

theorem RewritesPaths.trans (h : m.RewritesPaths f m') (h' : m'.RewritesPaths f' m'') :
    m.RewritesPaths (fun path ↦ f' (f path)) m'' := by
  intro place
  have here := h place
  have here' := h' place
  generalize m.nested? place = n at here ⊢
  generalize m'.nested? place = n' at here here'
  generalize m''.nested? place = n'' at here' ⊢
  rcases here with ⟨path, same⟩ | -
  · rcases here' with ⟨path', same'⟩
    exact .some ⟨path'.trans (congrArg f' path), same.trans same'⟩
  · rcases here' with - | -
    exact .none

/-- A row of relocations takes each path through all of them. -/
theorem rewritesPaths_foldl_relocate (roots : List String) (m : Module) :
    m.RewritesPaths (fun path ↦ roots.foldl Path.relative path)
      (roots.foldl (fun m root ↦ m.relocate root) m) := by
  induction roots generalizing m with
  | nil => exact .refl m
  | cons root roots ih => exact (rewritesPaths_relocate root m).trans (ih (m.relocate root))

/-- **Relocation rewrites paths and nothing else.** The relocated module is the one module in which
the same places lead somewhere, the path at each is the one there was, once as it is seen from the
directory, and names, namespaces, attributes, the keys and the order of the imports, the lists of
top-level declarations and the declarations are what they were. After a row of relocations each path
is the one there was, as it is seen from the first directory, the result as it is seen from the
second, and so on. -/
theorem rewritesPaths_iff (m : Module) :
    (∀ root m', m.RewritesPaths (Path.relative · root) m' ↔ m' = m.relocate root) ∧
      ∀ (roots : List String) (m' : Module),
        m.RewritesPaths (fun path ↦ roots.foldl Path.relative path) m' ↔
          m' = roots.foldl (fun m root ↦ m.relocate root) m := by
  constructor
  · intro root m'
    constructor
    · exact fun h ↦ (rewritesPaths_relocate root m).unique h
    · rintro rfl
      exact rewritesPaths_relocate root m
  · intro roots m'
    constructor
    · exact fun h ↦ (rewritesPaths_foldl_relocate roots m).unique h
    · rintro rfl
      exact rewritesPaths_foldl_relocate roots m

end IdlLinker.Module
