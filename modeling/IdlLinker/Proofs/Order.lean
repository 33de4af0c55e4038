import IdlLinker.Proofs.Redeclare
import IdlLinker.Proofs.Renumbering

/-!
# The order of the top-level lists

A file lists its declarations in some order, and the walk follows it: another order enters a cycle
elsewhere, and visits everything in another sequence. The outcome is the same nevertheless. There is
a module for one order when there is one for the other, and the two differ in nothing but numbers
and the order of their own lists, which follows the order in the file.

## Why the entry does not matter

A finished walk covers what the file reaches and visits nothing else, and what the file reaches has
no order. So two walks visit the same declarations, and two numberings of the same declarations
differ by a renumbering.

An enum member that is used as a value is the exception: whether it knows where it is nested does
depend on the order. `Module.Renumbers` leaves this out.
-/

namespace IdlLinker

open IdlLinker.Graph IdlLinker.Link

/-! ## Arrangements -/

/-- An order of `n` positions. -/
structure Arrangement (n : Nat) where
  positions : List Nat
  perm : positions.Perm (List.range n)

namespace Arrangement

variable {α β : Type} {n : Nat} (π : Arrangement n)

/-- The elements of a list in another order. -/
def arrange (l : List α) : List α := π.positions.filterMap (l[·]?)

theorem filterMap_range_getElem? (l : List α) : (List.range l.length).filterMap (l[·]?) = l := by
  induction l with
  | nil => rfl
  | cons a rest ih =>
    rw [List.length_cons, List.range_succ_eq_map, List.filterMap_cons, List.filterMap_map]
    exact congrArg (a :: ·) ih

theorem perm_arrange {l : List α} (π : Arrangement l.length) : (π.arrange l).Perm l := by
  have all := π.perm.filterMap (l[·]?)
  rwa [filterMap_range_getElem?] at all

example : (⟨[2, 0, 1], by decide⟩ : Arrangement 3).arrange ["E", "F", "G"] = ["G", "E", "F"] := by
  decide

theorem map_arrange (p : α → β) (l : List α) : (π.arrange l).map p = π.arrange (l.map p) := by
  rw [arrange, arrange, List.map_filterMap]
  simp only [List.getElem?_map]

/-- Elements that are taken in two steps are arranged in between. -/
theorem map_arrange_of_comp {γ : Type} {p : α → β} {q : β → γ} {p' : α → γ}
    (h : ∀ a, p' a = q (p a)) (l : List α) :
    (π.arrange l).map p' = (π.arrange (l.map p)).map q := by
  rw [← map_arrange, List.map_map]
  exact List.map_congr_left fun a _ ↦ h a

end Arrangement

namespace Graph

/-- An order for each of the lists of a file. -/
structure TopLevel.Arrangement (d : TopLevel) where
  constants : IdlLinker.Arrangement d.constants.length
  enums : IdlLinker.Arrangement d.enums.length
  structs : IdlLinker.Arrangement d.structs.length
  unions : IdlLinker.Arrangement d.unions.length
  interfaces : IdlLinker.Arrangement d.interfaces.length

/-- The same declarations, each list in another order. -/
def TopLevel.arrange (d : TopLevel) (π : d.Arrangement) : TopLevel where
  constants := π.constants.arrange d.constants
  enums := π.enums.arrange d.enums
  structs := π.structs.arrange d.structs
  unions := π.unions.arrange d.unions
  interfaces := π.interfaces.arrange d.interfaces

/-- The graph in which a file lists its declarations in another order. -/
def rearrange (g : Graph) (f : FileId) (π : (g.declaredBy f).Arrangement) : Graph :=
  g.redeclare f ((g.declaredBy? f).map fun _ ↦ (g.declaredBy f).arrange π)

variable {g : Graph} {f : FileId} {d : TopLevel} {u : Use}

theorem TopLevel.arrange_empty (π : TopLevel.Arrangement {}) : TopLevel.arrange {} π = {} := by
  rw [arrange, π.constants.perm_arrange.eq_nil, π.enums.perm_arrange.eq_nil,
    π.structs.perm_arrange.eq_nil, π.unions.perm_arrange.eq_nil, π.interfaces.perm_arrange.eq_nil]

/-- The order makes no difference to what is listed. -/
theorem TopLevel.uses_arrange (π : d.Arrangement) : (d.arrange π).Uses u ↔ d.Uses u := by
  constructor
  · rintro (listed | listed | listed | listed | listed)
    · exact .constant (π.constants.perm_arrange.mem_iff.mp listed)
    · exact .interface (π.interfaces.perm_arrange.mem_iff.mp listed)
    · exact .struct (π.structs.perm_arrange.mem_iff.mp listed)
    · exact .union (π.unions.perm_arrange.mem_iff.mp listed)
    · exact .enum (π.enums.perm_arrange.mem_iff.mp listed)
  · rintro (listed | listed | listed | listed | listed)
    · exact .constant (π.constants.perm_arrange.mem_iff.mpr listed)
    · exact .interface (π.interfaces.perm_arrange.mem_iff.mpr listed)
    · exact .struct (π.structs.perm_arrange.mem_iff.mpr listed)
    · exact .union (π.unions.perm_arrange.mem_iff.mpr listed)
    · exact .enum (π.enums.perm_arrange.mem_iff.mpr listed)

variable {source : SourceFile} {π : (g.declaredBy f).Arrangement}

theorem declaredBy_rearrange (hf : g.files.find? f = some source) :
    (g.rearrange f π).declaredBy f = (g.declaredBy f).arrange π := by
  rw [rearrange, declaredBy_of_find? (find?_redeclare_self hf)]
  cases listed : g.declaredBy? f with
  | some d => rfl
  | none =>
    -- Where nothing is listed there is nothing to arrange.
    have empty : g.declaredBy f = {} := by rw [declaredBy, listed, Option.getD_none]
    revert π
    rw [empty]
    intro π
    exact (TopLevel.arrange_empty π).symm

end Graph

/-! ## Walks from both orders -/

namespace Link

variable {g : Graph} {f : FileId} {source source' : SourceFile} {v v' : Visits} {s : Scope}
  {imports : Table FileId (Module.Import Module)} {π : (g.declaredBy f).Arrangement}

theorem sameDeclarations (hv : v.Distinct) (hv' : v'.Distinct) (grows : v.Grows v')
    (grows' : v'.Grows v) :
    (Numbering.ofVisits s v).SameDeclarations (Numbering.ofVisits s v') := by
  have types : ∀ key, v'.types.find? key = v.types.find? key := fun key ↦
    Option.ext fun _ ↦ ⟨grows'.types, grows.types⟩
  refine ⟨rfl, fun _ ↦ Numbering.nodup_keysIn hv, fun _ ↦ Numbering.nodup_keysIn hv',
    ?_, ?_, ?_, ?_, ?_, ?_⟩
  · intro key
    ext d
    rw [Numbering.find?_structs_iff hv', Numbering.find?_structs_iff hv, types]
  · intro key
    ext d
    rw [Numbering.find?_unions_iff hv', Numbering.find?_unions_iff hv, types]
  · intro key
    ext d
    rw [Numbering.find?_enums_iff hv', Numbering.find?_enums_iff hv, types]
  · intro key
    ext d
    rw [Numbering.find?_interfaces_iff hv', Numbering.find?_interfaces_iff hv, types]
  · exact fun key ↦ Option.ext fun _ ↦ ⟨grows'.constants, grows.constants⟩
  · exact fun key ↦ Option.ext fun _ ↦ ⟨grows'.members, grows.members⟩

/-- What is visited from one order covers what is listed in the other. -/
theorem Links.coversListed_rearrange (h : Links g f source imports v)
    (π : (g.declaredBy f).Arrangement) : v.CoversListed g (g.rearrange f π) f where
  types := types_redeclare
  values := values_redeclare
  listed u hu := by
    rw [declaredBy_rearrange h.file, TopLevel.uses_arrange, declaredBy_of_find? h.file] at hu
    exact h.covers (reaches_of_listed h.file hu)

theorem Links.coversListed_of_rearrange (hf : g.files.find? f = some source)
    (h : Links (g.rearrange f π) f source' imports v) :
    v.CoversListed (g.rearrange f π) g f where
  types := types_redeclare.symm
  values := values_redeclare.symm
  listed u hu := by
    rw [← TopLevel.uses_arrange π, ← declaredBy_rearrange hf, declaredBy_of_find? h.file] at hu
    exact h.covers (reaches_of_listed h.file hu)

end Link

/-! ## The outcome for both orders -/

/-- The top-level lists of a module are those of another one, with other numbers and in another
order. -/
structure Module.ListsArranged {d : TopLevel} (π : d.Arrangement) (σ : Renumbering)
    (m m' : Module) : Prop where
  constants : m'.constants = (π.constants.arrange m.constants).map (σ.id .constants)
  enums : m'.enums = (π.enums.arrange m.enums).map (σ.id .enums)
  structs : m'.structs = (π.structs.arrange m.structs).map (σ.id .structs)
  unions : m'.unions = (π.unions.arrange m.unions).map (σ.id .unions)
  interfaces : m'.interfaces = (π.interfaces.arrange m.interfaces).map (σ.id .interfaces)

/-- **Two links come to the same apart from the order**: both fail, or both give a module, and the
modules are the same apart from numbers and from the order of the top-level lists. -/
inductive SameApartFromOrder {d : TopLevel} (π : d.Arrangement) :
    Except LinkError Module → Except LinkError Module → Prop where
  | fails {e e' : LinkError} : SameApartFromOrder π (.error e) (.error e')
  | succeeds {m m' : Module} (σ : Renumbering) (renumbers : m.Renumbers σ m')
    (lists : m.ListsArranged π σ m') : SameApartFromOrder π (.ok m) (.ok m')

namespace Link

variable {g : Graph} {f : FileId} {source source' : SourceFile} {v v' : Visits}
  {imports imports' : Table FileId (Module.Import Module)} {π : (g.declaredBy f).Arrangement}

theorem Numbering.SameDeclarations.listsArranged {n n' : Numbering} (h : n.SameDeclarations n')
    {d : TopLevel} (π : d.Arrangement) :
    (n.module d).ListsArranged π h.renumbering (n'.module (d.arrange π)) where
  constants := π.constants.map_arrange_of_comp h.constantId d.constants
  enums := π.enums.map_arrange_of_comp h.enumId d.enums
  structs := π.structs.map_arrange_of_comp h.structId d.structs
  unions := π.unions.map_arrange_of_comp h.unionId d.unions
  interfaces := π.interfaces.map_arrange_of_comp h.interfaceId d.interfaces

theorem Links.exists_module_rearrange (h : Links g f source imports v)
    (π : (g.declaredBy f).Arrangement) : ∃ m, (g.rearrange f π).module f = .ok m := by
  apply WellFormed.exists_module
  apply h.wellFormed_of_listed (h.coversListed_rearrange π) ⟨_, find?_redeclare_self h.file⟩
  · intro n path
    rw [rearrange, leadsTo_redeclare] at path
    exact exists_file_redeclare_iff.mpr (h.wellFormed.imports n path)
  · intro n seen
    rw [rearrange, sees_redeclare]
    exact seen

theorem Links.exists_module_of_rearrange (hf : g.files.find? f = some source)
    (h : Links (g.rearrange f π) f source' imports v) : ∃ m, g.module f = .ok m := by
  apply WellFormed.exists_module
  apply h.wellFormed_of_listed (h.coversListed_of_rearrange hf) ⟨source, hf⟩
  · intro n path
    rw [← leadsTo_redeclare] at path
    exact exists_file_redeclare_iff.mp (h.wellFormed.imports n path)
  · intro n seen
    rw [rearrange, sees_redeclare] at seen
    exact seen

theorem Links.sameApartFromOrder (h : Links g f source imports v)
    (h' : Links (g.rearrange f π) f source' imports' v') :
    SameApartFromOrder π (.ok (assembled f source imports v))
      (.ok (assembled f source' imports' v')) := by
  have listed := declaredBy_rearrange (π := π) h.file
  rw [declaredBy_of_find? h'.file] at listed
  obtain rfl := Option.some.inj ((find?_redeclare_self h.file).symm.trans h'.file)
  obtain rfl : imports = imports' :=
    Except.ok.inj (h.closed.symm.trans ((transitiveImports_redeclare h.file).symm.trans h'.closed))
  have same := sameDeclarations (s := ⟨f, outline source imports⟩) h.distinct h'.distinct
    (h'.grows_of_listed (h'.coversListed_of_rearrange h.file) h)
    (h.grows_of_listed (h.coversListed_rearrange π) h')
  rw [assembled, assembled, listed, ← declaredBy_of_find? h.file]
  exact .succeeds same.renumbering (same.renumbers _ _) (same.listsArranged π)

end Link

/-- **The order in which a file lists its declarations makes no difference**, apart from the numbers
and the order of the lists themselves. -/
theorem sameApartFromOrder_rearrange (g : Graph) (f : FileId) (π : (g.declaredBy f).Arrangement) :
    SameApartFromOrder π (g.module f) ((g.rearrange f π).module f) := by
  cases hf : g.files.find? f with
  | none =>
    rw [rearrange, redeclare_of_missing hf, module_eq_error_of_missing hf]
    exact .fails
  | some source =>
    cases linked : g.module f with
    | ok m =>
      obtain ⟨source, imports, v, links, rfl⟩ := module_eq_ok_iff.mp linked
      obtain ⟨m', linked'⟩ := links.exists_module_rearrange π
      obtain ⟨source', imports', v', links', rfl⟩ := module_eq_ok_iff.mp linked'
      rw [linked']
      exact links.sameApartFromOrder links'
    | error e =>
      cases linked' : (g.rearrange f π).module f with
      | error e' => exact .fails
      | ok m' =>
        obtain ⟨source', imports', v', links', rfl⟩ := module_eq_ok_iff.mp linked'
        obtain ⟨m, made⟩ := links'.exists_module_of_rearrange hf
        cases linked.symm.trans made

end IdlLinker
