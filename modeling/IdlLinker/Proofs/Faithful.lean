import IdlLinker.Proofs.Image
import IdlLinker.Proofs.Numbering
import IdlLinker.Proofs.WellFormed

/-!
# Linking is faithful

The naming under which a module is faithful is the numbering that it was assembled with. What has
to be shown of each part is that the keys in it were visited, each as a declaration of the kind that
its place requires: then the number of the key is what the relation asks for. The walk covers every
use that the file reaches, so each part is its image as soon as its uses are reached.

The correspondence is one to one because visited keys have different numbers, and onto because every
position in an arena is the number of a visited key. Both speak of the finished walk only. While a
declaration is under way it is visited, and its parts may not be; nothing is assembled then.
-/

namespace IdlLinker.Link

open IdlLinker.Graph

/-- What keys stand for in a module that is assembled from visits. -/
def Numbering.naming (n : Numbering) : Naming := ⟨n.userType, n.constantId, n.memberId⟩

/-! ## Numbers and attributes -/

/-- A number of a source, read with a sign, stands for itself from a bound on. -/
theorem numberImage_ite {p : Prop} [Decidable p] {least : Int} {i : Int32}
    (hp : p ↔ least ≤ i.toInt) (hl : 0 ≤ least) :
    NumberImage least i (if p then some (UInt32.ofNat i.toInt.toNat) else none) := by
  intro n
  have bound := Int32.toInt_lt i
  split
  · rename_i inside
    -- A number with a sign and 32 bits is less than 2 ^ 31, so nothing is cut off.
    have small : (UInt32.ofNat i.toInt.toNat).toNat = i.toInt.toNat := by
      rw [UInt32.toNat_ofNat']
      omega
    have enough := hp.mp inside
    rw [Option.some.injEq, ← UInt32.toNat_inj, small]
    constructor
    · intro same
      exact ⟨enough, by omega⟩
    · rintro ⟨-, same⟩
      omega
  · rename_i outside
    refine ⟨nofun, ?_⟩
    rintro ⟨least, -⟩
    exact absurd (hp.mpr least) outside

theorem numberImage_ordinal? (d : Info) : NumberImage 0 d.ordinal (Numbering.ordinal? d) :=
  numberImage_ite Int32.le_iff_toInt_le (Int.le_refl 0)

theorem numberImage_length? (length : Int32) :
    NumberImage 1 length
      (if 0 < length then some (UInt32.ofNat length.toInt.toNat) else none) :=
  numberImage_ite Int32.lt_iff_toInt_lt (by decide)

theorem attributesImage_attributesOf (attributes? : Option (List Attribute)) :
    AttributesImage attributes? (attributesOf attributes?) where
  keys := by
    rw [attributesOf, Table.keys_ofList, List.map_map]
    rfl
  texts key := by
    rw [attributesOf, Table.find?_ofList, List.filter_map, List.getLast?_map, Option.map_map]
    rfl

/-! ## Parts of declarations -/

theorem rel_map {α β : Type} {r : α → β → Prop} {p : α → β} {o : Option α}
    (h : ∀ a, o = some a → r a (p a)) : Option.Rel r o (o.map p) := by
  cases o with
  | none => exact .none
  | some a => exact .some (h a rfl)

theorem forall₂_map {α β : Type} {r : α → β → Prop} {p : α → β} {l : List α}
    (h : ∀ a ∈ l, r a (p a)) : List.Forall₂ r l (l.map p) :=
  List.forall₂_map_right_iff.mpr (List.forall₂_same.mpr h)

variable {g : Graph} {f : FileId} {source : SourceFile} {v : Visits}
  {imports : Table FileId (Module.Import Module)}

/-- The numbering of a finished walk. -/
abbrev Links.numbering (_ : Links g f source imports v) : Numbering :=
  .ofVisits ⟨f, outline source imports⟩ v

/-- What keys stand for after a finished walk. -/
abbrev Links.naming (h : Links g f source imports v) : Naming := h.numbering.naming

/-- The module of a finished walk. -/
abbrev Links.module (_ : Links g f source imports v) : Module := assembled f source imports v

variable (h : Links g f source imports v) {key : TypeKey} {tag : TypeTag}
include h

theorem Links.type_of_covers (covered : v.Covers (.type key (some tag))) :
    h.naming.type key = .ofTag tag ((h.numbering.keysOf tag).idxOf key) := by
  cases covered with
  | type visited fits =>
    obtain rfl := fits tag rfl
    exact Numbering.userType_of_visited h.distinct visited

theorem Links.kindImage {t : TypeExpr} (covers : ∀ {u}, t.Uses u → v.Covers u) :
    KindImage h.naming t (h.numbering.kind t) := by
  induction t with
  | primitive p => exact .primitive
  | string nullable => exact .string
  | handle nullable kind => exact .handle
  | array nullable length element ih =>
    exact .array (ih fun hu ↦ covers (.element hu)) (numberImage_length? length)
  | map nullable key value ihk ihv =>
    exact .map (ihk fun hu ↦ covers (.key hu)) (ihv fun hu ↦ covers (.value hu))
  | reference r =>
    rw [Numbering.kind]
    cases hr : r.isRequest with
    | false => exact .user hr
    | true => exact .request hr (h.type_of_covers (covers (.request hr)))

theorem Links.valueImage {e : ValueExpr} (covers : ∀ {u}, e.Uses u → v.Covers u) :
    ValueImage g h.naming e (h.numbering.value e) := by
  cases e with
  | literal l => exact .literal
  | builtin b => exact .builtin
  | reference r =>
    rw [Numbering.value, Numbering.valueRef]
    -- What is visited under the key is what the graph has there, so it cannot be both.
    cases covers .reference with
    | valueConstant visited =>
      have constant : (h.numbering.constants.find? r.key).isSome = true :=
        Option.isSome_iff_exists.mpr ⟨_, visited⟩
      rw [if_pos constant]
      exact .constant (h.reached.constants visited).2
    | valueMember visited =>
      have found := (h.reached.members visited).2
      have member : ¬(h.numbering.constants.find? r.key).isSome = true := by
        rw [Option.isSome_iff_exists]
        rintro ⟨d, visited'⟩
        cases found.symm.trans (h.reached.constants visited').2
      rw [if_neg member]
      exact .member found

theorem Links.nestedImage {d : Info} (covers : ∀ {u}, d.Nests u → v.Covers u) :
    NestedImage h.naming d (h.numbering.containedEnums d) (h.numbering.containedConstants d) := by
  rw [Numbering.containedEnums, Numbering.containedConstants]
  cases hd : d.contained? with
  | none => exact ⟨by rw [hd]; exact .nil, by rw [hd]; exact .nil⟩
  | some c =>
    refine ⟨?_, ?_⟩
    · rw [hd]
      exact forall₂_map fun key hk ↦ h.type_of_covers (covers (.enum hd hk))
    · rw [hd]
      exact forall₂_map fun key hk ↦ rfl

theorem Links.parameterImages {p : Graph.Struct}
    (covers : ∀ {d u}, d ∈ p.fields → d.type.Uses u → v.Covers u) :
    List.Forall₂ (ParameterImage h.naming) p.fields (h.numbering.parameters p) :=
  forall₂_map fun _ hd ↦
    { name := rfl
      kind := h.kindImage (covers hd)
      ordinal := numberImage_ordinal? _
      attributes := attributesImage_attributesOf _ }

/-! ## Owners -/

theorem Links.ownerImage {d : Info} (hd : g.ReachesInfo f d) :
    OwnerImage f h.module d.source? (h.numbering.owner d.source?) := by
  obtain ⟨place, hs, sees⟩ := h.sees_source hd
  rw [hs, Numbering.owner]
  split
  · rename_i here
    exact .here here
  · rename_i elsewhere
    have names := closure_of_transitiveImports h.closed
    have listed : place.fileName ∈ imports.keys :=
      (mem_closure_iff h.file names).mpr (sees.resolve_left elsewhere)
    obtain ⟨description, found⟩ := Table.mem_keys_iff.mp listed
    refine .imported elsewhere ?_
    have entry : h.module.transitiveImports.entry? (imports.index place.fileName) =
      some (place.fileName, description) := Table.getElem?_index found
    exact congrArg (Option.map Prod.fst) entry

/-! ## Declarations -/

theorem Links.structImage {d : Graph.Struct} (reached : g.ReachesType f key (.struct d)) :
    StructImage g f h.module h.naming d (h.numbering.struct d) where
  name := rfl
  spec := rfl
  owner := h.ownerImage (.type reached)
  attributes := attributesImage_attributesOf _
  fields := forall₂_map fun _ hd ↦
    { name := rfl
      kind := h.kindImage fun hu ↦ h.covers (reached.uses (.structField hd hu))
      ordinal := numberImage_ordinal? _
      default := rel_map fun default hv ↦ by
        cases default with
        | keyword => exact .keyword
        | value e =>
          exact .value (h.valueImage fun hu ↦ h.covers (reached.uses (.structDefault hd hv hu)))
      attributes := attributesImage_attributesOf _ }
  nested := h.nestedImage fun hu ↦ h.covers (reached.uses (.structNested hu))

theorem Links.unionImage {d : Graph.Union} (reached : g.ReachesType f key (.union d)) :
    UnionImage f h.module h.naming d (h.numbering.union d) where
  name := rfl
  spec := rfl
  owner := h.ownerImage (.type reached)
  attributes := attributesImage_attributesOf _
  fields := forall₂_map fun _ hd ↦
    { name := rfl
      kind := h.kindImage fun hu ↦ h.covers (reached.uses (.unionField hd hu))
      ordinal := numberImage_ordinal? _
      default := rfl
      attributes := attributesImage_attributesOf _ }

theorem Links.enumImage {d : Graph.Enum} (reached : g.ReachesType f key (.enum d)) :
    EnumImage g f h.module h.naming d (h.numbering.enum d) where
  name := rfl
  spec := rfl
  owner := h.ownerImage (.type reached)
  attributes := attributesImage_attributesOf _
  parent := rfl
  fields := forall₂_map fun _ hd ↦
    { name := rfl
      number := rfl
      value := rel_map fun _ hv ↦
        h.valueImage fun hu ↦ h.covers (reached.uses (.enumInitializer hd hv hu))
      attributes := attributesImage_attributesOf _ }

theorem Links.interfaceImage {d : Graph.Interface}
    (reached : g.ReachesType f key (.interface d)) :
    InterfaceImage f h.module h.naming d (h.numbering.interface d) where
  name := rfl
  spec := rfl
  owner := h.ownerImage (.type reached)
  attributes := attributesImage_attributesOf _
  service := rfl
  methods := forall₂_map fun _ hm ↦
    { name := rfl
      ordinal := rfl
      parameters := h.parameterImages fun hd hu ↦ h.covers (reached.uses (.parameter hm hd hu))
      response := rel_map fun _ hp ↦
        h.parameterImages fun hd hu ↦ h.covers (reached.uses (.response hm hp hd hu))
      attributes := attributesImage_attributesOf _ }
  nested := h.nestedImage fun hu ↦ h.covers (reached.uses (.interfaceNested hu))

theorem Links.constantImage {key : ValueKey} {d : Graph.Constant}
    (reached : g.ReachesConstant f key d) :
    ConstantImage g f h.module h.naming d (h.numbering.constant d) where
  name := rfl
  owner := h.ownerImage (.constant reached)
  kind := h.kindImage fun hu ↦ h.covers (reached.uses (.constantType hu))
  value := h.valueImage fun hu ↦ h.covers (reached.uses (.constantValue hu))
  parent := rfl

theorem Links.exists_enum {key : ValueKey} {d : Graph.Enumerator}
    (reached : g.ReachesMember f key d) :
    ∃ e, v.types.find? d.enum = some (.enum e) := by
  cases h.covers (reached.uses .memberEnum) with
  | @type _ _ e visited fits =>
    have enum := fits .enum rfl
    cases e <;> cases enum
    exact ⟨_, visited⟩

theorem Links.enum_info {key : TypeKey} {e : Graph.Enum}
    (visited : v.types.find? key = some (.enum e)) :
    ((h.numbering.enums.find? key).map Graph.Enum.info).getD {} = e.info := by
  have found : h.numbering.enums.find? key = some e :=
    (Numbering.find?_enums_iff h.distinct).mpr visited
  rw [found]
  rfl

/-- A member is nested where its enum is, if it is not stray. -/
theorem Links.member_parent? {key : ValueKey} {d : Graph.Enumerator} {e : Graph.Enum}
    (visited : v.types.find? d.enum = some (.enum e)) :
    (h.numbering.member key d).parent? =
      if key ∈ v.stray then none else e.info.container?.map h.naming.type := by
  rw [Numbering.member, h.enum_info visited]
  rfl

theorem Links.memberImage {key : ValueKey} {d : Graph.Enumerator}
    (reached : g.ReachesMember f key d) :
    ∃ e, MemberImage g f h.module h.naming d e (h.numbering.member key d) := by
  obtain ⟨e, visited⟩ := h.exists_enum reached
  refine ⟨e, ?_⟩
  exact
    { name := rfl
      enum := h.type_of_covers (h.covers (reached.uses .memberEnum))
      declared := (h.reached.types visited).2
      owner := by
        have owner := h.ownerImage (.type (h.reached.types visited))
        rw [Numbering.member, h.enum_info visited]
        exact owner
      moduleNamespace := by
        rw [Numbering.member, Module.namespaceOf.eq_def, Module.namespaceOf.eq_def]
        rfl
      parent := by
        rw [h.member_parent? visited]
        split
        · exact Or.inl rfl
        · exact Or.inr rfl }

theorem Links.typeImage {d : TypeDecl} (reached : g.ReachesType f key d) :
    TypeImage g f h.module h.naming d (h.naming.type key) := by
  have visited := h.find?_types_iff.mpr reached
  have number : h.naming.type key = .ofTag d.tag ((h.numbering.keysOf d.tag).idxOf key) :=
    Numbering.userType_of_visited h.distinct visited
  rw [number]
  cases d with
  | struct d =>
    have found : h.numbering.structs.find? key = some d :=
      (Numbering.find?_structs_iff h.distinct).mpr visited
    exact .struct (Numbering.get?_map_values h.numbering.struct found) (h.structImage reached)
  | union d =>
    have found : h.numbering.unions.find? key = some d :=
      (Numbering.find?_unions_iff h.distinct).mpr visited
    exact .union (Numbering.get?_map_values h.numbering.union found) (h.unionImage reached)
  | enum d =>
    have found : h.numbering.enums.find? key = some d :=
      (Numbering.find?_enums_iff h.distinct).mpr visited
    exact .enum (Numbering.get?_map_values h.numbering.enum found) (h.enumImage reached)
  | interface d =>
    have found : h.numbering.interfaces.find? key = some d :=
      (Numbering.find?_interfaces_iff h.distinct).mpr visited
    exact .interface (Numbering.get?_map_values h.numbering.interface found)
      (h.interfaceImage reached)

/-- The declarations that a file lists stand for those at the top of its module. -/
theorem Links.listingImage : ListingImage h.module h.naming (source.declared?.getD {}) := by
  have reached : ∀ {u}, (source.declared?.getD {}).Uses u → g.Reaches f u := fun hu ↦
    reaches_of_listed h.file hu
  exact
    { constants := forall₂_map fun _ _ ↦ rfl
      enums := forall₂_map fun _ hk ↦ h.type_of_covers (h.covers (reached (.enum hk)))
      structs := forall₂_map fun _ hk ↦ h.type_of_covers (h.covers (reached (.struct hk)))
      unions := forall₂_map fun _ hk ↦ h.type_of_covers (h.covers (reached (.union hk)))
      interfaces := forall₂_map fun _ hk ↦
        h.type_of_covers (h.covers (reached (.interface hk))) }

/-! ## The correspondence -/

theorem Links.mem_userTypes_iff {u : UserType} :
    u ∈ h.module.userTypes ↔ u.index < (h.numbering.keysOf u.tag).length := by
  rw [Module.mem_userTypes_iff]
  exact iff_of_eq (congrArg _ (Numbering.arenaSize_module _))

theorem Links.bijOn_types :
    Set.BijOn h.naming.type {key | ∃ d, g.ReachesType f key d} {u | u ∈ h.module.userTypes} := by
  simp only [← h.find?_types_iff]
  refine ⟨?_, ?_, ?_⟩
  · rintro key ⟨d, visited⟩
    have number : h.naming.type key = .ofTag d.tag ((h.numbering.keysOf d.tag).idxOf key) :=
      Numbering.userType_of_visited h.distinct visited
    refine h.mem_userTypes_iff.mpr ?_
    rw [number, UserType.tag_ofTag, UserType.index_ofTag]
    exact List.idxOf_lt_length_of_mem ((Numbering.mem_keysOf_iff h.distinct).mpr ⟨d, visited, rfl⟩)
  · rintro key ⟨d, visited⟩ key' ⟨d', visited'⟩ same
    exact Numbering.userType_inj h.distinct visited visited' same
  · intro u hu
    obtain ⟨key, d, visited, number⟩ :=
      Numbering.exists_userType_eq h.distinct (h.mem_userTypes_iff.mp hu)
    rw [UserType.ofTag_tag_index] at number
    exact ⟨key, ⟨d, visited⟩, number⟩

theorem Links.bijOn_constants :
    Set.BijOn h.naming.constant {key | ∃ d, g.ReachesConstant f key d}
      {id | ∃ d', h.module.constant? id = some d'} := by
  simp only [← h.find?_constants_iff]
  exact Numbering.bijOn_index h.distinct.constants (by simp [Table.values, Table.size])

theorem Links.bijOn_members :
    Set.BijOn h.naming.member {key | ∃ d, g.ReachesMember f key d}
      {id | ∃ d', h.module.member? id = some d'} := by
  simp only [← h.find?_members_iff]
  exact Numbering.bijOn_index h.distinct.members (by simp [Table.size])

/-- **A finished walk is assembled to a faithful module.** -/
theorem Links.faithful : Faithful g f h.module h.naming where
  types := h.bijOn_types
  constants := h.bijOn_constants
  members := h.bijOn_members
  type _ _ reached := h.typeImage reached
  constant _ d reached := by
    have visited := h.find?_constants_iff.mpr reached
    have found := Numbering.get?_map_values h.numbering.constant visited
    exact ⟨h.numbering.constant d, found, h.constantImage reached⟩
  member key d reached := by
    have visited := h.find?_members_iff.mpr reached
    have found := Numbering.get?_map_entries h.numbering.member visited
    obtain ⟨e, image⟩ := h.memberImage reached
    exact ⟨e, h.numbering.member key d, found, image⟩
  listing source' hf := by
    obtain rfl := Option.some.inj (h.file.symm.trans hf)
    exact h.listingImage

end IdlLinker.Link

namespace IdlLinker

open Link

namespace Faithful

variable {g : Graph} {f : FileId} {m : Module} {ρ : Naming} (h : Faithful g f m ρ) {i : Nat}

/-! ## What a module holds -/

include h

/-- What lies in an arena of types is the picture of the declaration that its position stands
for. -/
theorem exists_type {u : UserType} (inside : u.index < m.arenaSize u.tag) :
    ∃ key d, ρ.type key = u ∧ g.ReachesType f key d ∧ TypeImage g f m ρ d u := by
  obtain ⟨key, ⟨d, reached⟩, rfl⟩ := h.types.surjOn (Module.mem_userTypes_iff.mpr inside)
  exact ⟨key, d, rfl, reached, h.type key d reached⟩

theorem exists_struct {d' : Module.Struct} (there : m.declarations.structs.get? i = some d') :
    ∃ key d, ρ.type key = .struct ⟨i⟩ ∧ g.ReachesType f key (.struct d) ∧
      StructImage g f m ρ d d' := by
  obtain ⟨inside, -⟩ := List.getElem?_eq_some_iff.mp there
  obtain ⟨key, d, same, reached, image⟩ := h.exists_type (u := .struct ⟨i⟩) inside
  cases image with
  | struct found image =>
    obtain rfl := Option.some.inj (there.symm.trans found)
    exact ⟨key, _, same, reached, image⟩

theorem exists_union {d' : Module.Union} (there : m.declarations.unions.get? i = some d') :
    ∃ key d, ρ.type key = .union ⟨i⟩ ∧ g.ReachesType f key (.union d) ∧ UnionImage f m ρ d d' := by
  obtain ⟨inside, -⟩ := List.getElem?_eq_some_iff.mp there
  obtain ⟨key, d, same, reached, image⟩ := h.exists_type (u := .union ⟨i⟩) inside
  cases image with
  | union found image =>
    obtain rfl := Option.some.inj (there.symm.trans found)
    exact ⟨key, _, same, reached, image⟩

theorem exists_enum {d' : Module.Enum} (there : m.declarations.enums.get? i = some d') :
    ∃ key d, ρ.type key = .enum ⟨i⟩ ∧ g.ReachesType f key (.enum d) ∧ EnumImage g f m ρ d d' := by
  obtain ⟨inside, -⟩ := List.getElem?_eq_some_iff.mp there
  obtain ⟨key, d, same, reached, image⟩ := h.exists_type (u := .enum ⟨i⟩) inside
  cases image with
  | enum found image =>
    obtain rfl := Option.some.inj (there.symm.trans found)
    exact ⟨key, _, same, reached, image⟩

theorem exists_interface {d' : Module.Interface}
    (there : m.declarations.interfaces.get? i = some d') :
    ∃ key d, ρ.type key = .interface ⟨i⟩ ∧ g.ReachesType f key (.interface d) ∧
      InterfaceImage f m ρ d d' := by
  obtain ⟨inside, -⟩ := List.getElem?_eq_some_iff.mp there
  obtain ⟨key, d, same, reached, image⟩ := h.exists_type (u := .interface ⟨i⟩) inside
  cases image with
  | interface found image =>
    obtain rfl := Option.some.inj (there.symm.trans found)
    exact ⟨key, _, same, reached, image⟩

theorem exists_constant {d' : Module.Constant}
    (there : m.declarations.constants.get? i = some d') :
    ∃ key d, ρ.constant key = ⟨i⟩ ∧ g.ReachesConstant f key d ∧ ConstantImage g f m ρ d d' := by
  obtain ⟨key, ⟨d, reached⟩, same⟩ := h.constants.surjOn (show ⟨i⟩ ∈ _ from ⟨d', there⟩)
  obtain ⟨_, found, image⟩ := h.constant key d reached
  rw [same] at found
  obtain rfl := Option.some.inj (there.symm.trans found)
  exact ⟨key, d, same, reached, image⟩

end Faithful

/-- A struct with a field of its own type, and with an enum nested in it whose member is the default
of another field. -/
def Graph.knot : Graph where
  files := ⟨[("a", { fileName := "a", declared? := some { structs := ["a.S"] } })]⟩
  types := ⟨[
    ("a.S", .struct
      { info := { shortName? := some "S", source? := some { fileName := "a" },
                  contained? := some { enums := ["a.S.E"] } }
        fields := [
          { info := { shortName? := some "next" },
            type := .reference { nullable := true, key := "a.S" } },
          { info := { shortName? := some "kind", ordinal := 1 },
            type := .reference { key := "a.S.E" },
            default? := some (.value (.reference { key := "a.S.E.A" })) }] }),
    ("a.S.E", .enum
      { info := { shortName? := some "E", source? := some { fileName := "a" },
                  container? := some "a.S" }
        values := [{ info := { shortName? := some "A" }, enum := "a.S.E" }] })]⟩
  values := ⟨[("a.S.E.A", .enumerator { info := { shortName? := some "A" }, enum := "a.S.E" })]⟩

end IdlLinker
