import IdlLinker.Proofs.Numbering
import Mathlib.Logic.Equiv.Defs

/-!
# Other numbers for the same declarations

A number says where in an arena a declaration stands, and nothing else about it. Two modules are the
same apart from numbers if some permutation of the numbers takes the one to the other: what stands
at a number in the first stands at the new number in the second, with new numbers for all that it
refers to. This module renumbers the parts of a module, and shows that two numberings of the same
declarations give modules that are the same in this sense.

## Positions in two lists

Behind a renumbering are two lists of the same keys, none of them repeated. A position in the first
is taken to the position at which the key there stands in the second (`moved`). Positions past the
end stay, so that this is a permutation of all numbers, and so that keys which are in neither list
are no exception.
-/

namespace IdlLinker

/-- A permutation of the numbers of each arena. -/
structure Renumbering where
  id : (space : Space) → Equiv.Perm (Id space)

/-! ## Parts of modules -/

section

variable (σ : Renumbering)

def UserType.renumber : UserType → UserType
  | .struct id => .struct (σ.id .structs id)
  | .union id => .union (σ.id .unions id)
  | .enum id => .enum (σ.id .enums id)
  | .interface id => .interface (σ.id .interfaces id)

def Ty.renumber : Ty → Ty
  | .primitive p => .primitive p
  | .string => .string
  | .handle h => .handle h
  | .array element elementNullable length? => .array element.renumber elementNullable length?
  | .map key keyNullable value valueNullable =>
    .map key.renumber keyNullable value.renumber valueNullable
  | .user u => .user (u.renumber σ)
  | .request id => .request (σ.id .interfaces id)

def Kind.renumber (k : Kind) : Kind := { k with ty := k.ty.renumber σ }

def ValueRef.renumber : ValueRef → ValueRef
  | .constant id => .constant (σ.id .constants id)
  | .member id => .member (σ.id .members id)

def Value.renumber : Value → Value
  | .literal l => .literal l
  | .builtin b => .builtin b
  | .reference target => .reference (target.renumber σ)

namespace Module

def FieldDefault.renumber : FieldDefault → FieldDefault
  | .value v => .value (v.renumber σ)
  | .keyword => .keyword

def Field.renumber (d : Field) : Field :=
  { d with kind := d.kind.renumber σ, default? := d.default?.map (FieldDefault.renumber σ) }

def Struct.renumber (d : Struct) : Struct :=
  { d with
    fields := d.fields.map (Field.renumber σ)
    enums := d.enums.map (σ.id .enums)
    constants := d.constants.map (σ.id .constants) }

def Union.renumber (d : Union) : Union := { d with fields := d.fields.map (Field.renumber σ) }

def Enumerator.renumber (d : Enumerator) : Enumerator :=
  { d with value? := d.value?.map (Value.renumber σ) }

def Enum.renumber (d : Enum) : Enum :=
  { d with
    parent? := d.parent?.map (UserType.renumber σ)
    fields := d.fields.map (Enumerator.renumber σ) }

def Parameter.renumber (d : Parameter) : Parameter := { d with kind := d.kind.renumber σ }

def Method.renumber (d : Method) : Method :=
  { d with
    parameters := d.parameters.map (Parameter.renumber σ)
    response? := d.response?.map (List.map (Parameter.renumber σ)) }

def Interface.renumber (d : Interface) : Interface :=
  { d with
    methods := d.methods.map (Method.renumber σ)
    enums := d.enums.map (σ.id .enums)
    constants := d.constants.map (σ.id .constants) }

def Constant.renumber (d : Constant) : Constant :=
  { d with
    kind := d.kind.renumber σ
    value := d.value.renumber σ
    parent? := d.parent?.map (UserType.renumber σ) }

/-- An enum member without the place where it is nested. -/
def Member.unplaced (d : Member) : Member := { d with parent? := none }

def Member.renumber (d : Member) : Member :=
  { d with
    enum := σ.id .enums d.enum
    parent? := d.parent?.map (UserType.renumber σ) }

end Module

end

/-- **A module is another one with other numbers.** What is not declared is the same; every
declaration stands at its new number, and refers to new numbers. Whether an enum member knows where
it is nested is left out. The order of the top-level declarations is left out as well. -/
structure Module.Renumbers (m : Module) (σ : Renumbering) (m' : Module) : Prop where
  name : m'.name = m.name
  specifiedName : m'.specifiedName = m.specifiedName
  path : m'.path = m.path
  moduleNamespace : m'.moduleNamespace = m.moduleNamespace
  attributes : m'.attributes = m.attributes
  imports : m'.imports = m.imports
  transitiveImports : m'.transitiveImports = m.transitiveImports
  struct : ∀ id, m'.struct? (σ.id _ id) = (m.struct? id).map (Struct.renumber σ)
  union : ∀ id, m'.union? (σ.id _ id) = (m.union? id).map (Union.renumber σ)
  enum : ∀ id, m'.enum? (σ.id _ id) = (m.enum? id).map (Enum.renumber σ)
  interface : ∀ id, m'.interface? (σ.id _ id) = (m.interface? id).map (Interface.renumber σ)
  constant : ∀ id, m'.constant? (σ.id _ id) = (m.constant? id).map (Constant.renumber σ)
  member : ∀ id, (m'.member? (σ.id _ id)).map Member.unplaced =
    (m.member? id).map fun d ↦ (d.renumber σ).unplaced

/-! ## Positions in two lists -/

section

variable {ks ks' : List String}

/-- Where the key at a position of a list stands in another list. -/
def moved (ks ks' : List String) (i : Nat) : Nat :=
  match ks[i]? with
  | some key => ks'.idxOf key
  | none => i

theorem moved_of_getElem? {i : Nat} {key : String} (h : ks[i]? = some key) :
    moved ks ks' i = ks'.idxOf key := by
  rw [moved, h]

theorem moved_of_length_le {i : Nat} (h : ks.length ≤ i) : moved ks ks' i = i := by
  rw [moved, List.getElem?_eq_none h]

theorem moved_idxOf (same : ks.Perm ks') (key : String) :
    moved ks ks' (ks.idxOf key) = ks'.idxOf key := by
  by_cases listed : key ∈ ks
  · exact moved_of_getElem? (List.getElem?_idxOf listed)
  · have absent : key ∉ ks' := fun h ↦ listed (same.mem_iff.mpr h)
    rw [List.idxOf_eq_length listed, moved_of_length_le le_rfl, same.length_eq,
      List.idxOf_eq_length absent]

theorem moved_moved (nodup : ks.Nodup) (same : ks.Perm ks') (i : Nat) :
    moved ks' ks (moved ks ks' i) = i := by
  by_cases inside : i < ks.length
  · rw [moved_of_getElem? (List.getElem?_eq_getElem inside), moved_idxOf same.symm,
      nodup.idxOf_getElem i inside]
  · have past : ks.length ≤ i := Nat.le_of_not_lt inside
    rw [moved_of_length_le past, moved_of_length_le (same.length_eq ▸ past)]

theorem perm_keys {α : Type} {t t' : Table String α} (nodup : t.keys.Nodup)
    (nodup' : t'.keys.Nodup) (same : ∀ key, t'.find? key = t.find? key) :
    t.keys.Perm t'.keys := by
  refine (List.perm_ext_iff_of_nodup nodup nodup').mpr fun key ↦ ?_
  rw [Table.mem_keys_iff, Table.mem_keys_iff, same]

theorem entries_getElem?_moved {α : Type} {t t' : Table String α} (nodup : t.keys.Nodup)
    (nodup' : t'.keys.Nodup) (same : ∀ key, t'.find? key = t.find? key) (i : Nat) :
    t'.entries[moved t.keys t'.keys i]? = t.entries[i]? := by
  have size : t.size = t'.size := by
    rw [← t.length_keys, ← t'.length_keys, (perm_keys nodup nodup' same).length_eq]
  by_cases inside : i < t.size
  · have there := List.getElem?_eq_getElem inside
    have found := same _ ▸ (Table.index_of_getElem? nodup there).2
    have key : t.keys[i]? = some t.entries[i].1 := by
      rw [Table.keys, List.getElem?_map, there]
      rfl
    rw [moved_of_getElem? key, there]
    exact Table.getElem?_index found
  · have past : t.size ≤ i := Nat.le_of_not_lt inside
    have past' : t'.size ≤ i := size ▸ past
    rw [moved_of_length_le (t.length_keys ▸ past), List.getElem?_eq_none past,
      List.getElem?_eq_none past']

/-- The permutation that takes positions in one list to positions in the other. -/
def moving (nodup : ks.Nodup) (same : ks.Perm ks') (space : Space) : Equiv.Perm (Id space) where
  toFun id := ⟨moved ks ks' id.index⟩
  invFun id := ⟨moved ks' ks id.index⟩
  left_inv id := congrArg Id.mk (moved_moved nodup same id.index)
  right_inv id := congrArg Id.mk (moved_moved (same.nodup_iff.mp nodup) same.symm id.index)

end

/-! ## Two numberings -/

namespace Link

open IdlLinker.Graph

namespace Numbering

/-- Two numberings number the same declarations. -/
structure SameDeclarations (n n' : Numbering) : Prop where
  scope : n'.scope = n.scope
  nodup : ∀ space, (n.keysIn space).Nodup
  nodup' : ∀ space, (n'.keysIn space).Nodup
  structs : ∀ key, n'.structs.find? key = n.structs.find? key
  unions : ∀ key, n'.unions.find? key = n.unions.find? key
  enums : ∀ key, n'.enums.find? key = n.enums.find? key
  interfaces : ∀ key, n'.interfaces.find? key = n.interfaces.find? key
  constants : ∀ key, n'.constants.find? key = n.constants.find? key
  members : ∀ key, n'.members.find? key = n.members.find? key

namespace SameDeclarations

variable {n n' : Numbering} (h : n.SameDeclarations n')
include h

theorem perm_keysIn (space : Space) : (n.keysIn space).Perm (n'.keysIn space) := by
  have nodup := h.nodup space
  have nodup' := h.nodup' space
  cases space with
  | structs => exact perm_keys nodup nodup' h.structs
  | unions => exact perm_keys nodup nodup' h.unions
  | enums => exact perm_keys nodup nodup' h.enums
  | interfaces => exact perm_keys nodup nodup' h.interfaces
  | constants => exact perm_keys nodup nodup' h.constants
  | members => exact perm_keys nodup nodup' h.members

/-- The numbers of the second numbering for those of the first. -/
def renumbering : Renumbering where
  id space := moving (h.nodup space) (h.perm_keysIn space) space

theorem idxOf_keysIn (space : Space) (key : String) :
    (⟨(n'.keysIn space).idxOf key⟩ : Id space) =
      h.renumbering.id space ⟨(n.keysIn space).idxOf key⟩ :=
  congrArg Id.mk (moved_idxOf (h.perm_keysIn space) key).symm

theorem structId (key : TypeKey) : n'.structId key = h.renumbering.id _ (n.structId key) :=
  h.idxOf_keysIn .structs key

theorem unionId (key : TypeKey) : n'.unionId key = h.renumbering.id _ (n.unionId key) :=
  h.idxOf_keysIn .unions key

theorem enumId (key : TypeKey) : n'.enumId key = h.renumbering.id _ (n.enumId key) :=
  h.idxOf_keysIn .enums key

theorem interfaceId (key : TypeKey) :
    n'.interfaceId key = h.renumbering.id _ (n.interfaceId key) :=
  h.idxOf_keysIn .interfaces key

theorem constantId (key : ValueKey) :
    n'.constantId key = h.renumbering.id _ (n.constantId key) :=
  h.idxOf_keysIn .constants key

theorem memberId (key : ValueKey) : n'.memberId key = h.renumbering.id _ (n.memberId key) :=
  h.idxOf_keysIn .members key

theorem userType (key : TypeKey) :
    n'.userType key = (n.userType key).renumber h.renumbering := by
  rw [Numbering.userType, Numbering.userType, h.structs, h.unions, h.enums, h.structId,
    h.unionId, h.enumId, h.interfaceId]
  simp only [apply_ite (UserType.renumber h.renumbering)]
  rfl

theorem valueRef (key : ValueKey) :
    n'.valueRef key = (n.valueRef key).renumber h.renumbering := by
  rw [Numbering.valueRef, Numbering.valueRef, h.constants, h.constantId, h.memberId]
  simp only [apply_ite (ValueRef.renumber h.renumbering)]
  rfl

/-! ## Parts -/

theorem kind (t : TypeExpr) : n'.kind t = (n.kind t).renumber h.renumbering := by
  induction t with
  | primitive p => rfl
  | string nullable => rfl
  | handle nullable kind => rfl
  | array nullable length element ih =>
    rw [Numbering.kind, Numbering.kind, ih]
    rfl
  | map nullable key value ihk ihv =>
    rw [Numbering.kind, Numbering.kind, ihk, ihv]
    rfl
  | reference r =>
    rw [Numbering.kind, Numbering.kind, h.userType, h.interfaceId]
    cases hr : r.isRequest <;> rfl

theorem value (e : ValueExpr) : n'.value e = (n.value e).renumber h.renumbering := by
  cases e with
  | literal l => rfl
  | builtin b => rfl
  | reference r => exact congrArg Value.reference (h.valueRef r.key)

theorem fieldDefault (d : FieldDefault) :
    n'.fieldDefault d = (n.fieldDefault d).renumber h.renumbering := by
  cases d with
  | value e => exact congrArg Module.FieldDefault.value (h.value e)
  | keyword => rfl

theorem containedEnums (d : Info) :
    n'.containedEnums d = (n.containedEnums d).map (h.renumbering.id .enums) := by
  rw [Numbering.containedEnums, Numbering.containedEnums]
  cases d.contained? with
  | none => rfl
  | some c => simp [h.enumId]

theorem containedConstants (d : Info) :
    n'.containedConstants d = (n.containedConstants d).map (h.renumbering.id .constants) := by
  rw [Numbering.containedConstants, Numbering.containedConstants]
  cases d.contained? with
  | none => rfl
  | some c => simp [h.constantId]

theorem parent (d : Info) :
    d.container?.map n'.userType =
      (d.container?.map n.userType).map (UserType.renumber h.renumbering) := by
  cases d.container? with
  | none => rfl
  | some key => exact congrArg some (h.userType key)

theorem owner (source? : Option SourceInfo) : n'.owner source? = n.owner source? := by
  simp only [Numbering.owner, h.scope]

/-! ## Declarations -/

theorem struct (d : Graph.Struct) : n'.struct d = (n.struct d).renumber h.renumbering := by
  have defaults := funext h.fieldDefault
  simp [Numbering.struct, Module.Struct.renumber, Module.Field.renumber, h.kind, defaults,
    h.owner, h.containedEnums, h.containedConstants, Function.comp_def]

theorem union (d : Graph.Union) : n'.union d = (n.union d).renumber h.renumbering := by
  simp [Numbering.union, Module.Union.renumber, Module.Field.renumber, h.kind, h.owner]

theorem enum (d : Graph.Enum) : n'.enum d = (n.enum d).renumber h.renumbering := by
  have values := funext h.value
  simp [Numbering.enum, Module.Enum.renumber, Module.Enumerator.renumber, values, h.owner,
    h.parent, Function.comp_def]

theorem parameters (d : Graph.Struct) :
    n'.parameters d = (n.parameters d).map (Module.Parameter.renumber h.renumbering) := by
  simp [Numbering.parameters, Module.Parameter.renumber, h.kind]

theorem method (m : Graph.Method) : n'.method m = (n.method m).renumber h.renumbering := by
  have lists := funext h.parameters
  simp [Numbering.method, Module.Method.renumber, lists, Function.comp_def]

theorem interface (d : Graph.Interface) :
    n'.interface d = (n.interface d).renumber h.renumbering := by
  simp [Numbering.interface, Module.Interface.renumber, h.method, h.owner, h.containedEnums,
    h.containedConstants]

theorem constant (d : Graph.Constant) :
    n'.constant d = (n.constant d).renumber h.renumbering := by
  simp [Numbering.constant, Module.Constant.renumber, h.kind, h.value, h.owner, h.parent]

theorem member (key : ValueKey) (d : Graph.Enumerator) :
    (n'.member key d).unplaced = ((n.member key d).renumber h.renumbering).unplaced := by
  simp [Numbering.member, Module.Member.renumber, Module.Member.unplaced, h.enums, h.enumId,
    h.owner, h.scope]

/-! ## Modules -/

omit h in
/-- An arena that holds the same declarations with other numbers. -/
theorem get?_moved {α β : Type} {t t' : Table String α} (nodup : t.keys.Nodup)
    (nodup' : t'.keys.Nodup) (same : ∀ key, t'.find? key = t.find? key) {p p' : α → β} {r : β → β}
    (hp : ∀ a, p' a = r (p a)) (i : Nat) :
    Arena.get? ⟨t'.values.map p'⟩ (moved t.keys t'.keys i) =
      (Arena.get? ⟨t.values.map p⟩ i).map r := by
  have entries := entries_getElem?_moved nodup nodup' same i
  simp only [Arena.get?, Table.values, List.getElem?_map, entries, Option.map_map]
  exact congrArg (Option.map · _) (funext fun e ↦ hp e.2)

theorem get?_members_moved (i : Nat) :
    (Arena.get? n'.declarations.members (moved n.members.keys n'.members.keys i)).map
        Module.Member.unplaced =
      (Arena.get? n.declarations.members i).map
        fun d ↦ (d.renumber h.renumbering).unplaced := by
  have entries :=
    entries_getElem?_moved (h.nodup .members) (h.nodup' .members) h.members i
  simp only [Arena.get?, declarations, List.getElem?_map, entries, Option.map_map]
  exact congrArg (Option.map · _) (funext fun e ↦ h.member e.1 e.2)

/-- **Numberings of the same declarations give modules that are the same apart from numbers**,
whatever these list at the top level. -/
theorem renumbers (top top' : TopLevel) :
    (n.module top).Renumbers h.renumbering (n'.module top') where
  name := by rw [Numbering.module, Numbering.module, h.scope]
  specifiedName := by rw [Numbering.module, Numbering.module, h.scope]
  path := by rw [Numbering.module, Numbering.module, h.scope]
  moduleNamespace := by rw [Numbering.module, Numbering.module, h.scope]
  attributes := by rw [Numbering.module, Numbering.module, h.scope]
  imports := by rw [Numbering.module, Numbering.module, h.scope]
  transitiveImports := by rw [Numbering.module, Numbering.module, h.scope]
  struct id := get?_moved (h.nodup .structs) (h.nodup' .structs) h.structs h.struct id.index
  union id := get?_moved (h.nodup .unions) (h.nodup' .unions) h.unions h.union id.index
  enum id := get?_moved (h.nodup .enums) (h.nodup' .enums) h.enums h.enum id.index
  interface id :=
    get?_moved (h.nodup .interfaces) (h.nodup' .interfaces) h.interfaces h.interface id.index
  constant id :=
    get?_moved (h.nodup .constants) (h.nodup' .constants) h.constants h.constant id.index
  member id := h.get?_members_moved id.index

end SameDeclarations

end Numbering

end Link

end IdlLinker
