import IdlLinker.Proofs.Locality
import IdlLinker.Proofs.WellFormed

/-!
# Declaring something else

A file says what it imports, and it lists what it declares. Here the list is replaced and the rest
stays: imports lead to the same files, and the keys lead to the same declarations. All that changes
is from where the file sets out.

## One walk for another

What a walk has visited is closed under what declarations name. If a finished walk covers all that
another file lists, in the same graph or in one with the same keys, it covers all that this file
reaches (`covers_of_listed`). What is reached was in order for the first file, so it is in order for
the second, as long as this one sees what the first one sees (`wellFormed_of_listed`).
-/

namespace IdlLinker

open IdlLinker.Graph

namespace Graph

/-- What a file lists, if it lists anything. -/
def declaredBy? (g : Graph) (f : FileId) : Option TopLevel :=
  (g.files.find? f).bind SourceFile.declared?

/-- What a file lists, which may be nothing. -/
def declaredBy (g : Graph) (f : FileId) : TopLevel := (g.declaredBy? f).getD {}

/-- The graph in which a file lists something else. -/
def redeclare (g : Graph) (f : FileId) (declared? : Option TopLevel) : Graph :=
  match g.files.find? f with
  | none => g
  | some source => { g with files := g.files.insert f { source with declared? } }

variable {g g' : Graph} {f n : FileId} {declared? : Option TopLevel} {source : SourceFile} {u : Use}

@[simp] theorem types_redeclare : (g.redeclare f declared?).types = g.types := by
  rw [redeclare]
  cases g.files.find? f <;> rfl

@[simp] theorem values_redeclare : (g.redeclare f declared?).values = g.values := by
  rw [redeclare]
  cases g.files.find? f <;> rfl

theorem redeclare_of_missing (missing : g.files.find? f = none) :
    g.redeclare f declared? = g := by
  rw [redeclare, missing]

theorem find?_files_redeclare (hf : g.files.find? f = some source) :
    (g.redeclare f declared?).files.find? n =
      if f = n then some { source with declared? } else g.files.find? n := by
  rw [redeclare, hf]
  exact Table.find?_insert _ _ _ _

theorem find?_redeclare_self (hf : g.files.find? f = some source) :
    (g.redeclare f declared?).files.find? f = some { source with declared? } := by
  rw [find?_files_redeclare hf, if_pos rfl]

theorem exists_file_redeclare_iff :
    (∃ file, (g.redeclare f declared?).files.find? n = some file) ↔
      ∃ file, g.files.find? n = some file := by
  cases hf : g.files.find? f with
  | none => rw [redeclare_of_missing hf]
  | some source =>
    rw [find?_files_redeclare hf]
    by_cases same : f = n
    · subst same
      simp [hf]
    · rw [if_neg same]

theorem declaredBy_of_find? (hf : g.files.find? f = some source) :
    g.declaredBy f = source.declared?.getD {} := by
  rw [declaredBy, declaredBy?, hf]
  rfl

/-- Whatever a file declares, every file has the heading that it had. -/
theorem sameHeadings_redeclare (g : Graph) (f : FileId) (declared? : Option TopLevel)
    (a : FileId) : g.SameHeadings (g.redeclare f declared?) a := by
  intro n _
  cases hf : g.files.find? f with
  | none =>
    rw [redeclare_of_missing hf]
    exact SourceFile.rel_sameHeading_self _
  | some source =>
    rw [find?_files_redeclare hf]
    by_cases same : f = n
    · subst same
      rw [if_pos rfl, hf]
      exact .some ⟨rfl, rfl, rfl, rfl, rfl⟩
    · rw [if_neg same]
      exact SourceFile.rel_sameHeading_self _

theorem imports_redeclare : (g.redeclare f declared?).Imports = g.Imports := by
  cases hf : g.files.find? f with
  | none => rw [redeclare_of_missing hf]
  | some source =>
    funext a b
    rw [Graph.Imports, Graph.Imports, find?_files_redeclare hf]
    by_cases same : f = a
    · subst same
      rw [if_pos rfl, hf]
      apply propext
      constructor
      · rintro ⟨file, hfile, hb⟩
        cases hfile
        exact ⟨source, rfl, hb⟩
      · rintro ⟨file, hfile, hb⟩
        cases hfile
        exact ⟨_, rfl, hb⟩
    · rw [if_neg same]

theorem leadsTo_redeclare : (g.redeclare f declared?).LeadsTo = g.LeadsTo := by
  unfold LeadsTo
  rw [imports_redeclare]

theorem sees_redeclare : (g.redeclare f declared?).Sees = g.Sees := by
  unfold Sees
  rw [leadsTo_redeclare]

theorem uses_declaredBy (hf : g.files.find? f = some source) {d : TopLevel}
    (hd : source.declared? = some d) (hu : d.Uses u) : (g.declaredBy f).Uses u := by
  rw [declaredBy_of_find? hf, hd]
  exact hu

end Graph

namespace Link

variable {g g' : Graph} {f a : FileId} {source source' : SourceFile} {v v' : Visits} {u : Use}
  {imports imports' : Table FileId (Module.Import Module)} {declared? : Option TopLevel}

theorem transitiveImports_redeclare (hf : g.files.find? f = some source) :
    transitiveImports (g.redeclare f declared?) { source with declared? } =
      transitiveImports g source :=
  (transitiveImports_congr (sameHeadings_redeclare g f declared? f) hf).symm

/-! ## One walk for another -/

/-- The visits of a walk in one graph cover all that a file lists in another, in which keys lead to
the same declarations. -/
structure Visits.CoversListed (v : Visits) (g g' : Graph) (a : FileId) : Prop where
  types : g'.types = g.types
  values : g'.values = g.values
  listed : ∀ u, (g'.declaredBy a).Uses u → v.Covers u

section

variable (h : Links g f source imports v) (listed : v.CoversListed g g' a)
include h listed

/-- **What covers all that a file lists covers all that it reaches.** -/
theorem Links.covers_of_listed (hu : g'.Reaches a u) : v.Covers u := by
  induction hu with
  | declared hf hd hu => exact listed.listed _ (uses_declaredBy hf hd hu)
  | type _ found uses ih => exact h.covers_of_type ih (listed.types ▸ found) uses
  | constant _ found uses ih => exact h.covers_of_constant ih (listed.values ▸ found) uses
  | value _ found uses ih => exact h.covers_of_value ih (listed.values ▸ found) uses

theorem Links.find?_types_of_listed {key : TypeKey} {d : TypeDecl} (hd : g'.ReachesType a key d) :
    v.types.find? key = some d := by
  obtain ⟨⟨expected?, reached⟩, found⟩ := hd
  exact h.find?_types_of_covers (h.covers_of_listed listed reached) (listed.types ▸ found)

theorem Links.find?_constants_of_listed {key : ValueKey} {d : Constant}
    (hd : g'.ReachesConstant a key d) : v.constants.find? key = some d := by
  obtain ⟨reached, found⟩ := hd
  exact h.find?_constants_of_covers
    (reached.imp (h.covers_of_listed listed) (h.covers_of_listed listed)) (listed.values ▸ found)

theorem Links.find?_members_of_listed {key : ValueKey} {d : Enumerator}
    (hd : g'.ReachesMember a key d) : v.members.find? key = some d := by
  obtain ⟨reached, found⟩ := hd
  exact h.find?_members_of_covers (h.covers_of_listed listed reached) (listed.values ▸ found)

/-- Whatever the walk of the other file visits was visited. -/
theorem Links.grows_of_listed (h' : Links g' a source' imports' v') : v'.Grows v where
  types visited := h.find?_types_of_listed listed (h'.find?_types_iff.mp visited)
  constants visited := h.find?_constants_of_listed listed (h'.find?_constants_iff.mp visited)
  members visited := h.find?_members_of_listed listed (h'.find?_members_iff.mp visited)

theorem Links.reachesInfo_of_listed {d : Info} (hd : g'.ReachesInfo a d) : g.ReachesInfo f d := by
  cases hd with
  | type reached =>
    exact .type (h.find?_types_iff.mp (h.find?_types_of_listed listed reached))
  | constant reached =>
    exact .constant (h.find?_constants_iff.mp (h.find?_constants_of_listed listed reached))

theorem Links.reachesLiteral_of_listed {l : Literal} (hl : g'.ReachesLiteral a l) :
    g.ReachesLiteral f l := by
  cases hl with
  | type reached holds =>
    exact .type (h.find?_types_iff.mp (h.find?_types_of_listed listed reached)) holds
  | constant reached holds =>
    exact .constant (h.find?_constants_iff.mp (h.find?_constants_of_listed listed reached)) holds

/-- **A file that lists what another one has visited is well formed**, if all that it imports is
there and it sees what the other one sees. -/
theorem Links.wellFormed_of_listed (file : ∃ source', g'.files.find? a = some source')
    (imports : ∀ n, g'.LeadsTo a n → ∃ file, g'.files.find? n = some file)
    (sees : ∀ n, g.Sees f n → g'.Sees a n) : WellFormed g' a where
  file := file
  imports := imports
  types key expected? reached := by
    obtain ⟨visited, fits⟩ := h.covers_of_listed listed reached
    exact ⟨_, listed.types ▸ (h.reached.types visited).2, fits⟩
  constants key reached := by
    cases h.covers_of_listed listed reached with
    | constant visited => exact ⟨_, listed.values ▸ (h.reached.constants visited).2⟩
  values key reached :=
    listed.values ▸ h.exists_of_covers_value (h.covers_of_listed listed reached)
  sources d reached := by
    obtain ⟨place, known, seen⟩ := h.sees_source (h.reachesInfo_of_listed listed reached)
    exact ⟨place, known, sees _ seen⟩
  literals l reached := h.representable (h.reachesLiteral_of_listed listed reached)

end

end Link

end IdlLinker
