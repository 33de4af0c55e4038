import IdlLinker.Link.Assemble
import IdlLinker.Proofs.Run
import Mathlib.Data.Set.Function

/-!
# Keys and numbers

The visited types are sorted into four tables, one for each kind, and the position of a key in its
table becomes the number of the type. Two facts make this a numbering: a visited key stands in the
table of its kind and in no other, and no key stands there twice. So different keys have different
numbers of one kind or numbers of different kinds, and every position belongs to a key.

To say this once and not four times, a type of a module is taken as what it is, a kind and a
position (`UserType.ofTag`), and the tables as lists of keys by kind (`Numbering.keysOf`).
-/

namespace IdlLinker

open IdlLinker.Graph

/-! ## Types as kinds and positions -/

namespace UserType

/-- The type at a position in the arena of a kind. -/
def ofTag : TypeTag → Nat → UserType
  | .struct, i => .struct ⟨i⟩
  | .union, i => .union ⟨i⟩
  | .enum, i => .enum ⟨i⟩
  | .interface, i => .interface ⟨i⟩

@[simp] theorem tag_ofTag (tag : TypeTag) (i : Nat) : (UserType.ofTag tag i).tag = tag := by
  cases tag <;> rfl

@[simp] theorem index_ofTag (tag : TypeTag) (i : Nat) : (UserType.ofTag tag i).index = i := by
  cases tag <;> rfl

@[simp] theorem ofTag_tag_index (u : UserType) : UserType.ofTag u.tag u.index = u := by
  cases u <;> rfl

theorem ofTag_inj {tag tag' : TypeTag} {i i' : Nat}
    (h : UserType.ofTag tag i = UserType.ofTag tag' i') :
    tag = tag' ∧ i = i' := by
  have tags := congrArg UserType.tag h
  have indices := congrArg UserType.index h
  rw [tag_ofTag, tag_ofTag] at tags
  rw [index_ofTag, index_ofTag] at indices
  exact ⟨tags, indices⟩

end UserType

/-- The number of types of a kind. -/
def Module.arenaSize (m : Module) : TypeTag → Nat
  | .struct => m.declarations.structs.size
  | .union => m.declarations.unions.size
  | .enum => m.declarations.enums.size
  | .interface => m.declarations.interfaces.size

theorem exists_lt_mk_eq_iff {space : Space} {id : Id space} {n : Nat} :
    (∃ i, i < n ∧ (⟨i⟩ : Id space) = id) ↔ id.index < n := by
  constructor
  · rintro ⟨i, hi, rfl⟩
    exact hi
  · intro h
    exact ⟨id.index, h, rfl⟩

theorem Module.mem_userTypes_iff {m : Module} {u : UserType} :
    u ∈ m.userTypes ↔ u.index < m.arenaSize u.tag := by
  cases u <;> simp [Module.userTypes, Module.arenaSize, UserType.tag, UserType.index,
    exists_lt_mk_eq_iff]

namespace Link.Numbering

/-! ## Selected entries -/

section

variable {α β : Type} {p : α → Option β} {t : Table TypeKey α} {key : TypeKey} {b : β}

theorem mem_entries_select_iff :
    (key, b) ∈ (select p t).entries ↔ ∃ a, (key, a) ∈ t.entries ∧ p a = some b := by
  simp only [select, List.mem_filterMap, Option.map_eq_some_iff, Prod.mk.injEq, Prod.exists]
  constructor
  · rintro ⟨key', a, mem, b', pa, rfl, rfl⟩
    exact ⟨a, mem, pa⟩
  · rintro ⟨a, mem, pa⟩
    exact ⟨key, a, mem, b, pa, rfl, rfl⟩

theorem nodup_keys_select (nodup : t.keys.Nodup) : (select p t).keys.Nodup := by
  have sublist : ∀ es : List (TypeKey × α),
      ((es.filterMap fun e ↦ (p e.2).map (e.1, ·)).map Prod.fst).Sublist (es.map Prod.fst) := by
    intro es
    induction es with
    | nil => exact .slnil
    | cons e rest ih =>
      rw [List.filterMap_cons]
      cases p e.2 with
      | none => exact .cons _ ih
      | some b => exact .cons_cons _ ih
  exact nodup.sublist (sublist t.entries)

theorem find?_select_iff (nodup : t.keys.Nodup) :
    (select p t).find? key = some b ↔ ∃ a, t.find? key = some a ∧ p a = some b := by
  rw [Table.find?_eq_some_iff (nodup_keys_select nodup), mem_entries_select_iff]
  simp only [Table.find?_eq_some_iff nodup]

/-- Where one form of values is selected, the entries are those of this form. -/
theorem find?_select_iff_of_form {form : β → α} (hp : ∀ a b, p a = some b ↔ a = form b)
    (nodup : t.keys.Nodup) : (select p t).find? key = some b ↔ t.find? key = some (form b) := by
  rw [find?_select_iff nodup]
  simp only [hp, exists_eq_right]

theorem mem_keys_select_iff {P : α → Prop} (hp : ∀ a, (p a).isSome = true ↔ P a)
    (nodup : t.keys.Nodup) : key ∈ (select p t).keys ↔ ∃ a, t.find? key = some a ∧ P a := by
  simp only [Table.mem_keys_iff, find?_select_iff nodup]
  rw [exists_comm]
  simp only [exists_and_left, ← Option.isSome_iff_exists, hp]

end

/-! ## Keys by kind -/

variable {s : Scope} {v : Visits} {key key' : TypeKey} {d : TypeDecl} {tag : TypeTag} {i : Nat}
  {top : TopLevel}

def keysOf (n : Numbering) : TypeTag → List TypeKey
  | .struct => n.structs.keys
  | .union => n.unions.keys
  | .enum => n.enums.keys
  | .interface => n.interfaces.keys

theorem nodup_keysOf (hv : v.Distinct) : ((ofVisits s v).keysOf tag).Nodup := by
  cases tag <;> exact nodup_keys_select hv.types

def keysIn (n : Numbering) : Space → List String
  | .structs => n.structs.keys
  | .unions => n.unions.keys
  | .enums => n.enums.keys
  | .interfaces => n.interfaces.keys
  | .constants => n.constants.keys
  | .members => n.members.keys

theorem nodup_keysIn {space : Space} (hv : v.Distinct) : ((ofVisits s v).keysIn space).Nodup := by
  cases space with
  | constants => exact hv.constants
  | members => exact hv.members
  | _ => exact nodup_keys_select hv.types

theorem find?_structs_iff (hv : v.Distinct) {d : Graph.Struct} :
    (ofVisits s v).structs.find? key = some d ↔ v.types.find? key = some (.struct d) :=
  find?_select_iff_of_form (fun a b ↦ by cases a <;> simp) hv.types

theorem find?_unions_iff (hv : v.Distinct) {d : Graph.Union} :
    (ofVisits s v).unions.find? key = some d ↔ v.types.find? key = some (.union d) :=
  find?_select_iff_of_form (fun a b ↦ by cases a <;> simp) hv.types

theorem find?_enums_iff (hv : v.Distinct) {d : Graph.Enum} :
    (ofVisits s v).enums.find? key = some d ↔ v.types.find? key = some (.enum d) :=
  find?_select_iff_of_form (fun a b ↦ by cases a <;> simp) hv.types

theorem find?_interfaces_iff (hv : v.Distinct) {d : Graph.Interface} :
    (ofVisits s v).interfaces.find? key = some d ↔ v.types.find? key = some (.interface d) :=
  find?_select_iff_of_form (fun a b ↦ by cases a <;> simp) hv.types

theorem mem_keysOf_iff (hv : v.Distinct) :
    key ∈ (ofVisits s v).keysOf tag ↔ ∃ d, v.types.find? key = some d ∧ d.tag = tag := by
  cases tag <;>
    exact mem_keys_select_iff (fun d ↦ by cases d <;> simp [TypeDecl.tag]) hv.types

/-! ## The number of a key -/

theorem isSome_find?_iff {α : Type} {t : Table TypeKey α} :
    (t.find? key).isSome = true ↔ key ∈ t.keys := by
  rw [Option.isSome_iff_exists, Table.mem_keys_iff]

/-- **The number of a visited type is its position among the keys of its kind.** -/
theorem userType_of_visited (hv : v.Distinct) (visited : v.types.find? key = some d) :
    (ofVisits s v).userType key = .ofTag d.tag (((ofVisits s v).keysOf d.tag).idxOf key) := by
  -- The key is in the table of its own kind only, and the tables are tried in turn.
  have own : ∀ tag, key ∈ (ofVisits s v).keysOf tag ↔ d.tag = tag := by
    intro tag
    rw [mem_keysOf_iff hv, visited]
    simp
  have structs : ((ofVisits s v).structs.find? key).isSome = true ↔ d.tag = .struct :=
    isSome_find?_iff.trans (own .struct)
  have unions : ((ofVisits s v).unions.find? key).isSome = true ↔ d.tag = .union :=
    isSome_find?_iff.trans (own .union)
  have enums : ((ofVisits s v).enums.find? key).isSome = true ↔ d.tag = .enum :=
    isSome_find?_iff.trans (own .enum)
  rw [userType]
  simp only [structs, unions, enums]
  cases d <;> rfl

theorem userType_inj (hv : v.Distinct) (visited : v.types.find? key = some d)
    {d' : TypeDecl} (visited' : v.types.find? key' = some d')
    (same : (ofVisits s v).userType key = (ofVisits s v).userType key') : key = key' := by
  rw [userType_of_visited hv visited, userType_of_visited hv visited'] at same
  obtain ⟨tags, indices⟩ := UserType.ofTag_inj same
  rw [← tags] at indices
  have listed : key ∈ (ofVisits s v).keysOf d.tag := (mem_keysOf_iff hv).mpr ⟨d, visited, rfl⟩
  exact (List.idxOf_inj listed).mp indices

theorem exists_userType_eq (hv : v.Distinct) (inside : i < ((ofVisits s v).keysOf tag).length) :
    ∃ key d, v.types.find? key = some d ∧ (ofVisits s v).userType key = .ofTag tag i := by
  have listed := List.getElem_mem inside
  obtain ⟨d, visited, rfl⟩ := (mem_keysOf_iff hv).mp listed
  refine ⟨_, d, visited, ?_⟩
  rw [userType_of_visited hv visited, (nodup_keysOf hv).idxOf_getElem]

/-! ## Arenas -/

theorem arenaSize_module (n : Numbering) :
    (n.module top).arenaSize tag = (n.keysOf tag).length := by
  cases tag <;>
    simp [Module.arenaSize, module, declarations, Arena.size, keysOf, Table.keys, Table.values]

theorem get?_map_values {α β : Type} {t : Table String α} {key : String} {a : α} (p : α → β)
    (found : t.find? key = some a) : Arena.get? ⟨t.values.map p⟩ (t.index key) = some (p a) := by
  rw [Arena.get?, List.getElem?_map, Table.values_getElem?_index found]
  rfl

theorem get?_map_entries {α β : Type} {t : Table String α} {key : String} {a : α}
    (p : String → α → β) (found : t.find? key = some a) :
    Arena.get? ⟨t.entries.map fun e ↦ p e.1 e.2⟩ (t.index key) = some (p key a) := by
  rw [Arena.get?, List.getElem?_map, Table.getElem?_index found]
  rfl

/-- The keys of a table correspond to the positions in an arena of the same size. -/
theorem bijOn_index {α β : Type} {space : Space} {t : Table String α} {items : List β}
    (nodup : t.keys.Nodup) (size : items.length = t.size) :
    Set.BijOn (fun key ↦ (⟨t.index key⟩ : Id space)) {key | ∃ a, t.find? key = some a}
      {id | ∃ b, Arena.get? ⟨items⟩ id.index = some b} := by
  refine ⟨?_, ?_, ?_⟩
  · rintro key ⟨a, found⟩
    have inside : t.index key < items.length := size ▸ Table.index_lt_size found
    exact ⟨items[t.index key], List.getElem?_eq_getElem inside⟩
  · rintro key ⟨a, found⟩ key' - same
    exact Table.index_inj found (Id.mk.inj same)
  · rintro ⟨i⟩ ⟨b, there⟩
    obtain ⟨inside, -⟩ := List.getElem?_eq_some_iff.mp there
    rw [size] at inside
    obtain ⟨index, found⟩ := Table.index_of_getElem? nodup (List.getElem?_eq_getElem inside)
    exact ⟨_, ⟨_, found⟩, congrArg Id.mk index⟩

end Link.Numbering

end IdlLinker
