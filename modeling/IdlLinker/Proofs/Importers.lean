import IdlLinker.Proofs.Redeclare

/-!
# What can be linked from an importer

A declaration that can be linked where it stands can be linked from every file that imports lead
there from. What it needs in turn may stand in files that the importer never names; these are among
its transitive imports all the same, since imports of imports lead there. So no error arises because
a declaration is reached from further away, and files that import each other are no exception.

The importer may list whatever the other file *resolved*, its own declarations or not. Each key has
to come in the list of its kind, since the lists require a kind.
-/

namespace IdlLinker

open IdlLinker.Graph IdlLinker.Link

/-! ## Resolved keys -/

/-- All keys listed are resolved on a walk, as declarations of the kind that the list requires. -/
structure Link.Visits.Resolves (v : Visits) (d : TopLevel) : Prop where
  constants : ∀ key ∈ d.constants, ∃ c, v.constants.find? key = some c
  enums : ∀ key ∈ d.enums, ∃ e, v.types.find? key = some (.enum e)
  structs : ∀ key ∈ d.structs, ∃ s, v.types.find? key = some (.struct s)
  unions : ∀ key ∈ d.unions, ∃ u, v.types.find? key = some (.union u)
  interfaces : ∀ key ∈ d.interfaces, ∃ i, v.types.find? key = some (.interface i)

/-- **A file can be linked, and the link resolves all keys listed.** -/
def Graph.Resolves (g : Graph) (b : FileId) (d : TopLevel) : Prop :=
  ∃ source imports v, Links g b source imports v ∧ v.Resolves d

variable {g : Graph} {a b : FileId} {source : SourceFile} {v : Visits} {d : TopLevel}
  {imports : Table FileId (Module.Import Module)}

theorem Link.Visits.covers_of_visited {key : TypeKey} {t : TypeDecl}
    (visited : v.types.find? key = some t) : v.Covers (.type key (some t.tag)) :=
  .type visited fun _ required ↦ Option.some.inj required

theorem Link.Visits.Resolves.covers (h : v.Resolves d) {u : Use} (hu : d.Uses u) : v.Covers u := by
  cases hu with
  | constant listed =>
    obtain ⟨c, visited⟩ := h.constants _ listed
    exact .constant visited
  | enum listed =>
    obtain ⟨e, visited⟩ := h.enums _ listed
    exact Visits.covers_of_visited visited
  | struct listed =>
    obtain ⟨s, visited⟩ := h.structs _ listed
    exact Visits.covers_of_visited visited
  | union listed =>
    obtain ⟨w, visited⟩ := h.unions _ listed
    exact Visits.covers_of_visited visited
  | interface listed =>
    obtain ⟨i, visited⟩ := h.interfaces _ listed
    exact Visits.covers_of_visited visited

/-! ## Importers -/

/-- An importer sees all that an imported file sees. -/
theorem Graph.sees_of_leadsTo (path : g.LeadsTo a b) {n : FileId} (h : g.Sees b n) :
    g.Sees a n := by
  rcases h with rfl | further
  · exact Or.inr path
  · exact Or.inr (path.trans further)

/-- **What is resolved in a file is resolved in every importer.** -/
theorem exists_module_of_resolved (hf : g.files.find? a = some source)
    (closed : transitiveImports g source = .ok imports) (imported : b ∈ imports.keys)
    (resolved : g.Resolves b d) : ∃ m, (g.redeclare a (some d)).module a = .ok m := by
  obtain ⟨sourceB, importsB, v, links, resolved⟩ := resolved
  have names := closure_of_transitiveImports closed
  have path : g.LeadsTo a b := (mem_closure_iff hf names).mp imported
  have file : (g.redeclare a (some d)).files.find? a = some { source with declared? := some d } :=
    find?_redeclare_self hf
  have listed : v.CoversListed g (g.redeclare a (some d)) a := by
    refine ⟨types_redeclare, values_redeclare, fun u hu ↦ ?_⟩
    rw [declaredBy_of_find? file] at hu
    exact resolved.covers hu
  apply WellFormed.exists_module
  apply links.wellFormed_of_listed listed ⟨_, file⟩
  · intro n further
    rw [leadsTo_redeclare] at further
    exact exists_file_redeclare_iff.mpr (exists_file_of_leadsTo hf closed further)
  · intro n seen
    rw [sees_redeclare]
    exact sees_of_leadsTo path seen

/-- The second file imports the first one, which knows nothing of the third. A struct of the second
has an enum of the third in it. -/
def Graph.relay : Graph where
  files := ⟨[
    ("a", { fileName := "a", imports? := some ["b"] }),
    ("b",
      { fileName := "b", imports? := some ["a", "c"],
        declared? := some { structs := ["b.S"] } }),
    ("c", { fileName := "c" })]⟩
  types := ⟨[
    ("b.S", .struct
      { info := { source? := some { fileName := "b" } }
        fields := [{ type := .reference { key := "c.E" } }] }),
    ("c.E", .enum { info := { source? := some { fileName := "c" } } })]⟩

theorem reachesType_relay :
    Graph.relay.ReachesType "b" "b.S" (.struct
      { info := { source? := some { fileName := "b" } }
        fields := [{ type := .reference { key := "c.E" } }] }) ∧
      Graph.relay.ReachesType "b" "c.E"
        (.enum { info := { source? := some { fileName := "c" } } }) := by
  have first : Graph.relay.Reaches "b" (.type "b.S" (some .struct)) :=
    .declared (by rfl) (by rfl) (.struct List.mem_cons_self)
  have second : Graph.relay.Reaches "b" (.type "c.E" none) :=
    .type first (by rfl) (.structField List.mem_cons_self (.plain rfl))
  exact ⟨⟨⟨_, first⟩, by rfl⟩, ⟨⟨_, second⟩, by rfl⟩⟩

theorem linked_relay :
    (∃ m, Graph.relay.module "a" = .ok m) ∧ ∃ m, Graph.relay.module "b" = .ok m :=
  ⟨exists_module_of_isSome (by cbv), exists_module_of_isSome (by cbv)⟩

theorem resolves_relay : Graph.relay.Resolves "b" { enums := ["c.E"], structs := ["b.S"] } := by
  obtain ⟨-, m, linked⟩ := linked_relay
  obtain ⟨source, imports, v, links, -⟩ := module_eq_ok_iff.mp linked
  obtain ⟨struct, enum⟩ := reachesType_relay
  refine ⟨source, imports, v, links, ?_⟩
  constructor
  · exact List.forall_mem_nil _
  · exact List.forall_mem_singleton.mpr ⟨_, links.find?_types_iff.mpr enum⟩
  · exact List.forall_mem_singleton.mpr ⟨_, links.find?_types_iff.mpr struct⟩
  · exact List.forall_mem_nil _
  · exact List.forall_mem_nil _

/-- The first file may list the enum of the third. -/
theorem exists_module_relay :
    ∃ source imports, Graph.relay.files.find? "a" = some source ∧
      transitiveImports Graph.relay source = .ok imports ∧ "b" ∈ imports.keys ∧
      Graph.relay.Resolves "b" { enums := ["c.E"], structs := ["b.S"] } ∧
      ∃ m, (Graph.relay.redeclare "a" (some { enums := ["c.E"], structs := ["b.S"] })).module "a" =
        .ok m := by
  obtain ⟨⟨m, linked⟩, -⟩ := linked_relay
  obtain ⟨source, imports, v, importer, -⟩ := module_eq_ok_iff.mp linked
  have imported : "b" ∈ imports.keys := by
    have step : Graph.relay.Imports "a" "b" := ⟨_, by rfl, List.mem_cons_self⟩
    exact (mem_closure_iff importer.file (closure_of_transitiveImports importer.closed)).mpr
      (.single step)
  exact ⟨source, imports, importer.file, importer.closed, imported, resolves_relay,
    exists_module_of_resolved importer.file importer.closed imported resolves_relay⟩

end IdlLinker
