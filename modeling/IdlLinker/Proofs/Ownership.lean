import IdlLinker.Proofs.Faithful

/-!
# Where declarations live

Each declaration of a module has an owner: the module itself, or one of its imports. The owner
*stands for* a file of the graph. It is the module exactly if that file is the one that was linked,
also where the file lies on a cycle of imports and so is among the imports of its own module; else
it is the import that is listed under the name of the file. The namespace of an owner is what the
graph has for the file.

An enum member that is used as a value has the owner and the namespace of its enum. Nothing is said
about when the member was reached: a member that is met while its enum is still being looked at is
no exception, since the owner of the enum rests on the source of the enum alone.
-/

namespace IdlLinker

open IdlLinker.Graph

/-- **An owner stands for a file of the graph.** -/
structure Owner.StandsFor (g : Graph) (f : FileId) (m : Module) (n : FileId) (o : Owner) :
    Prop where
  /-- The module itself stands for the file that was linked, and for no other. -/
  here : o = .here ↔ n = f
  /-- An import stands for the file under whose name it is listed. -/
  imported : ∀ id, o = .imported id →
    (m.transitiveImports.entry? id.index).map Prod.fst = some n
  moduleNamespace : ∃ file, g.files.find? n = some file ∧ m.namespaceOf o = file.moduleNamespace

/-- **Every declaration of a module is owned by the file in which it stands.** -/
structure Owned (g : Graph) (f : FileId) (m : Module) (ρ : Naming) : Prop where
  /-- A type stands in a file, and its owner stands for that file. -/
  types : ∀ u ∈ m.userTypes, ∃ key d place owner,
    ρ.type key = u ∧ g.ReachesType f key d ∧ d.info.source? = some place ∧
      m.userTypeOwner? u = some owner ∧ owner.StandsFor g f m place.fileName
  /-- So does a constant. -/
  constants : ∀ id constant, m.constant? id = some constant → ∃ key d place,
    ρ.constant key = id ∧ g.ReachesConstant f key d ∧ d.info.source? = some place ∧
      constant.owner.StandsFor g f m place.fileName
  /-- An enum member belongs where its enum does. -/
  members : ∀ id member, m.member? id = some member → ∃ enum,
    m.enum? member.enum = some enum ∧ member.owner = enum.owner ∧
      member.moduleNamespace = m.namespaceOf member.owner

theorem TypeImage.exists_owner {g : Graph} {f : FileId} {m : Module} {ρ : Naming} {d : TypeDecl}
    {u : UserType} (image : TypeImage g f m ρ d u) :
    ∃ owner, m.userTypeOwner? u = some owner ∧ OwnerImage f m d.info.source? owner := by
  cases image with
  | struct found h => exact ⟨_, congrArg (Option.map _) found, h.owner⟩
  | union found h => exact ⟨_, congrArg (Option.map _) found, h.owner⟩
  | enum found h => exact ⟨_, congrArg (Option.map _) found, h.owner⟩
  | interface found h => exact ⟨_, congrArg (Option.map _) found, h.owner⟩

namespace Link

variable {g : Graph} {f : FileId} {source : SourceFile} {v : Visits}
  {imports : Table FileId (Module.Import Module)}

variable (h : Links g f source imports v)
include h

theorem Links.standsFor_here : Owner.here.StandsFor g f h.module f where
  here := iff_of_true rfl rfl
  imported := nofun
  moduleNamespace := ⟨source, h.file, rfl⟩

theorem Links.standsFor_imported {n : FileId} {id : ImportId} (other : n ≠ f)
    (listed : (h.module.transitiveImports.entry? id.index).map Prod.fst = some n) :
    (Owner.imported id).StandsFor g f h.module n where
  here := iff_of_false nofun other
  imported := by
    rintro _ ⟨⟩
    exact listed
  moduleNamespace := by
    obtain ⟨⟨_, description⟩, entry, rfl⟩ := Option.map_eq_some_iff.mp listed
    obtain ⟨file, found, rfl⟩ := exists_file_of_mem_imports h.closed (List.mem_of_getElem? entry)
    refine ⟨file, found, ?_⟩
    rw [Module.namespaceOf, Module.import?, entry]
    rfl

theorem Links.standsFor {source? : Option SourceInfo} {o : Owner}
    (image : OwnerImage f h.module source? o) :
    ∃ place, source? = some place ∧ o.StandsFor g f h.module place.fileName := by
  cases image with
  | here same => exact ⟨_, rfl, same ▸ h.standsFor_here⟩
  | imported other listed => exact ⟨_, rfl, h.standsFor_imported other listed⟩

theorem Links.member_belongs {id : MemberId} {member : Module.Member}
    (found : h.module.member? id = some member) :
    ∃ enum, h.module.enum? member.enum = some enum ∧ member.owner = enum.owner ∧
      member.moduleNamespace = h.module.namespaceOf member.owner := by
  obtain ⟨key, ⟨d, reached⟩, rfl⟩ := h.faithful.members.surjOn ⟨member, found⟩
  obtain ⟨e, visited⟩ := h.exists_enum reached
  -- The member and its enum are both made from the declaration of the enum.
  have made : h.module.member? (h.naming.member key) = some (h.numbering.member key d) :=
    Numbering.get?_map_entries h.numbering.member (h.find?_members_iff.mpr reached)
  have enum : h.numbering.enums.find? d.enum = some e :=
    (Numbering.find?_enums_iff h.distinct).mpr visited
  obtain rfl := Option.some.inj (found.symm.trans made)
  refine ⟨h.numbering.enum e, Numbering.get?_map_values h.numbering.enum enum, ?_, ?_⟩
  · rw [Numbering.member, h.enum_info visited, Numbering.enum]
  · rw [Numbering.member, Module.namespaceOf.eq_def, Module.namespaceOf.eq_def]
    rfl

/-- **The owners of a finished walk are exact.** -/
theorem Links.owned : Owned g f h.module h.naming where
  types u hu := by
    obtain ⟨key, ⟨d, reached⟩, rfl⟩ := h.faithful.types.surjOn hu
    obtain ⟨owner, found, image⟩ := (h.typeImage reached).exists_owner
    obtain ⟨place, source, stands⟩ := h.standsFor image
    exact ⟨key, d, place, owner, rfl, reached, source, found, stands⟩
  constants id constant found := by
    obtain ⟨key, ⟨d, reached⟩, rfl⟩ := h.faithful.constants.surjOn ⟨constant, found⟩
    obtain ⟨constant', found', image⟩ := h.faithful.constant key d reached
    obtain rfl := Option.some.inj (found.symm.trans found')
    obtain ⟨place, source, stands⟩ := h.standsFor image.owner
    exact ⟨key, d, place, rfl, reached, source, stands⟩
  members _ _ := h.member_belongs

end Link

open Link

/-- **Ownership and namespaces are exact.** -/
theorem exists_owned {g : Graph} {f : FileId} {m : Module} (h : g.module f = .ok m) :
    ∃ ρ, Faithful g f m ρ ∧ Owned g f m ρ := by
  obtain ⟨source, imports, v, links, rfl⟩ := module_eq_ok_iff.mp h
  exact ⟨links.naming, links.faithful, links.owned⟩

/-- Two files that import each other. The enum of the second has an initializer that leads back to a
member of the enum, and a constant of the first has that member as its value. -/
def Graph.mutual : Graph where
  files := ⟨[
    ("a",
      { fileName := "a", moduleNamespace := "p", imports? := some ["b"],
        declared? := some { constants := ["a.K"] } }),
    ("b", { fileName := "b", moduleNamespace := "q", imports? := some ["a"] })]⟩
  types := ⟨[
    ("b.E", .enum
      { info := { source? := some { fileName := "b" } }
        values := [
          { enum := "b.E" },
          { enum := "b.E", initializer? := some (.reference { key := "b.E.A" }) }] })]⟩
  values := ⟨[
    ("a.K", .constant
      { info := { source? := some { fileName := "a" } }, type := .reference { key := "b.E" },
        value := .reference { key := "b.E.A" } }),
    ("b.E.A", .enumerator { enum := "b.E" })]⟩

/-- The file has a module, which lies among its own imports, and its owners are exact. -/
theorem exists_owned_mutual :
    ∃ m, Graph.mutual.module "a" = .ok m ∧
      ∃ ρ, Faithful Graph.mutual "a" m ρ ∧ Owned Graph.mutual "a" m ρ := by
  obtain ⟨m, linked⟩ : ∃ m, Graph.mutual.module "a" = .ok m := exists_module_of_isSome (by cbv)
  exact ⟨m, linked, exists_owned linked⟩

end IdlLinker
