import IdlLinker.Proofs.Construction.Resolve
import IdlLinker.Proofs.Ownership
import IdlLinker.Proofs.References

/-!
# No construction panics

A module that is built in place is the module that is assembled after the walk, and where there is
no module, both are refused for the same reason. In particular none of the things happens that a
construction has no answer to: no position is out of bounds, every slot is filled in the end, and
the positions do not run out, as long as the tables of the graph have no more entries than there are
positions.

The pieces are all there. A construction of the top-level declarations follows the walk of the file;
at its end every node is complete, since none was there at its start.
-/

namespace IdlLinker

open IdlLinker.Graph IdlLinker.Link

namespace Construction

open IdlLinker.Link.Numbering

variable {g : Graph} {f : FileId} {s : Scope} {σ : Site} {v : Visits} {n : Nat} {r : Resolver}

/-! ## The finished site -/

theorem ext_get? {α : Type} {a b : Arena α} (h : ∀ i, a.get? i = b.get? i) : a = b := by
  obtain ⟨items⟩ := a
  obtain ⟨items'⟩ := b
  exact congrArg Arena.mk (List.ext_getElem? h)

theorem arenas_eq (mirrors : Mirrors g s none σ v)
    (complete : ∀ {space key}, key ∈ (ofVisits s v).keysIn space →
      σ.Agrees (ofVisits s v) space key) (space : Space) :
    σ.arenas space = (ofVisits s v).arena space := by
  refine ext_get? fun i ↦ ?_
  -- Every position below the number of visits is that of a key, and there are no others.
  by_cases inside : i < ((ofVisits s v).keysIn space).length
  · have agrees := complete (List.getElem_mem inside)
    have number : (ofVisits s v).number space ((ofVisits s v).keysIn space)[i] = i :=
      (nodup_keysIn mirrors.sound.distinct).idxOf_getElem i inside
    rwa [Site.Agrees, Site.node?, number] at agrees
  · have outside : ∀ a : Arena (Cell space), a.size = ((ofVisits s v).keysIn space).length →
        a.get? i = none := fun a size ↦ by
      rw [Arena.get?, List.getElem?_eq_none_iff]
      rw [Arena.size] at size
      omega
    rw [outside _ (mirrors.size space), outside _ (size_arena _ _)]

theorem finish_filled {α : Type} (items : List α) : finish ⟨items.map some⟩ = .ok ⟨items⟩ := by
  have each : ∀ k, (((items.map some).zipIdx k).map fun e ↦ (e.2, e.1)).mapM filled =
      .ok items := by
    induction items with
    | nil => exact fun _ ↦ rfl
    | cons x rest ih =>
      intro k
      rw [List.map_cons, List.zipIdx_cons, List.map_cons, List.mapM_cons, ih]
      rfl
  change (((items.map some).zipIdx 0).map fun e ↦ (e.2, e.1)).mapM filled >>= _ = _
  rw [each]
  rfl

theorem declarations_eq (h : ∀ space, σ.arenas space = (ofVisits s v).arena space) :
    σ.declarations = .ok (ofVisits s v).declarations := by
  have constants : finish (σ.arenas .constants) =
      .ok ⟨(ofVisits s v).constants.values.map (ofVisits s v).constant⟩ := by
    rw [h, ← finish_filled, List.map_map]
    rfl
  have members : finish (σ.arenas .members) =
      .ok ⟨(ofVisits s v).members.entries.map fun e ↦ (ofVisits s v).member e.1 e.2⟩ := by
    rw [h, ← finish_filled, List.map_map]
    rfl
  rw [Site.declarations, constants, members, h, h, h, h]
  rfl

/-! ## The top-level declarations -/

theorem Resolves.topLevel (hr : r.Sound g s n) (source : SourceFile) :
    Resolves g s n (topLevel s r (source.declared?.getD {})) (requirementsOfFile source) fun m ↦
      { s.module with
        constants := (source.declared?.getD {}).constants.map m.constantId
        enums := (source.declared?.getD {}).enums.map m.enumId
        structs := (source.declared?.getD {}).structs.map m.structId
        unions := (source.declared?.getD {}).unions.map m.unionId
        interfaces := (source.declared?.getD {}).interfaces.map m.interfaceId } := by
  have requirements : requirementsOfFile source =
      (source.declared?.getD {}).constants.map Requirement.constant ++
        ((source.declared?.getD {}).interfaces.map (Requirement.type · (some .interface)) ++
          ((source.declared?.getD {}).structs.map (Requirement.type · (some .struct)) ++
            ((source.declared?.getD {}).unions.map (Requirement.type · (some .union)) ++
              (source.declared?.getD {}).enums.map (Requirement.type · (some .enum))))) := by
    rw [requirementsOfFile]
    cases source.declared? with
    | none => rfl
    | some d => simp
  rw [requirements]
  generalize source.declared?.getD {} = top
  exact (Resolves.mapM_each hr.constant top.constants).bind fun constants ↦
    (Resolves.mapM_each (Resolves.typed hr .interface) top.interfaces).bind fun interfaces ↦
    (Resolves.mapM_each (Resolves.typed hr .struct) top.structs).bind fun structs ↦
    (Resolves.mapM_each (Resolves.typed hr .union) top.unions).bind fun unions ↦
    (Resolves.mapM_each (Resolves.typed hr .enum) top.enums).map fun enums ↦
      ({ s.module with constants, enums, structs, unions, interfaces } : Module)

/-! ## The outcome -/

variable {source : SourceFile} {imports : Table FileId (Module.Import Module)}

theorem mirrors_unbegun : Mirrors g s none {} (unbegun f source imports) where
  sound := ⟨distinct_unbegun, nofun, nofun, nofun, nofun, nofun⟩
  typeIds _ := rfl
  constantIds _ := rfl
  memberIds _ := rfl
  size space := by cases space <;> rfl
  enums := nofun

theorem unvisited_unbegun : unvisited g (unbegun f source imports) < levels g := by
  have types : (unseen g.types []).length ≤ g.types.size :=
    (List.length_filter_le _ _).trans_eq g.types.length_keys
  have values : (unseen g.values []).length ≤ g.values.size :=
    (List.length_filter_le _ _).trans_eq g.values.length_keys
  change (unseen g.types []).length +
    ((unseen g.values []).length + (unseen g.values []).length) < levels g
  rw [levels]
  omega

/-- **A module that is built in place is the module that is assembled after the walk.** -/
theorem build_eq (roomy : Roomy g) (f : FileId) : build g f = (g.module f).mapError .refused := by
  rw [build]
  cases file : g.files.find? f with
  | none =>
    have missing : g.module f = .error (.missingFile f) := by
      rw [Graph.module, Graph.link, file]
      rfl
    rw [missing]
    rfl
  | some source =>
    dsimp only
    cases closed : transitiveImports g source with
    | error e =>
      have failed : g.module f = .error e := by
        rw [Graph.module, Graph.link, file]
        simp only [closed]
        rfl
      rw [failed]
      rfl
    | ok imports =>
      have walked := (Resolves.topLevel (sound_resolver (s := ⟨f, outline source imports⟩) roomy
        (levels g)) source).follows mirrors_unbegun
        (unvisited_unbegun : unvisited g (unbegun f source imports) < levels g)
      dsimp only
      generalize topLevel _ _ _ _ = outcome at walked
      cases walked with
      | refused run failed =>
        rw [module_eq_error_of_run file closed run failed]
        rfl
      | @done m σ v run mirrors advances result =>
        have complete : ∀ {space key}, key ∈ (ofVisits ⟨f, outline source imports⟩ v).keysIn space →
            σ.Agrees (ofVisits ⟨f, outline source imports⟩ v) space key := fun {space key} listed ↦
          advances.complete (by cases space <;> exact List.not_mem_nil) listed
            ⟨.refl mirrors.sound, fun _ _ ↦ Iff.rfl⟩
        have linked : g.module f = .ok (assembled f source imports v) :=
          module_eq_ok_iff.mpr ⟨source, imports, v, ⟨file, closed, run⟩, rfl⟩
        simp only [declarations_eq (arenas_eq mirrors complete)]
        rw [linked, result (.refl mirrors.sound)]
        rfl

/-- **No panic and no dangling reference.** When the tables of a graph have no more entries than
there are positions, no construction panics: it ends with the module of the file, or with the error
for which the file has none. In the module every reference is within its arena or table, and what it
stands for can be looked up. -/
theorem ne_panicked_and_closed (types : g.types.size ≤ 2 ^ 32) (values : g.values.size ≤ 2 ^ 32)
    (f : FileId) :
    (∀ p, build g f ≠ .error (.panicked p)) ∧
      build g f = (g.module f).mapError .refused ∧ ∀ m, g.module f = .ok m → m.Closed := by
  have same := build_eq (roomy_of_le types values) f
  refine ⟨fun p panicked ↦ ?_, same, fun m linked ↦ ?_⟩
  · rw [same] at panicked
    cases linked : g.module f with
    | error e =>
      rw [linked] at panicked
      cases panicked
    | ok m =>
      rw [linked] at panicked
      cases panicked
  · obtain ⟨source, imports, v, links, rfl⟩ := module_eq_ok_iff.mp linked
    exact links.module_closed

/-- The declarations of the two files lead to each other; the module is built, and is closed. -/
theorem exists_closed_mutual : ∃ m, build Graph.mutual "a" = .ok m ∧ m.Closed := by
  obtain ⟨-, same, closed⟩ := ne_panicked_and_closed (g := Graph.mutual) (by decide) (by decide) "a"
  obtain ⟨m, linked⟩ : ∃ m, Graph.mutual.module "a" = .ok m := exists_module_of_isSome (by cbv)
  rw [linked] at same
  exact ⟨m, same, closed m linked⟩

end Construction

end IdlLinker
