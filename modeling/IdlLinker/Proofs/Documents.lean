import IdlLinker.Module.Document
import IdlLinker.Proofs.Json.Shown
import IdlLinker.Proofs.Numbering

/-!
# The documents of modules

What a document shows determines what it was made from (`Module.IsPrintable.eq_of_shown`). This is
proved for one type after the other, from literals up to modules, as their documents stand in each
other. Members go by names that do not depend on their values, so that most objects are told apart
member by member. Three things need a closer look.

* Alternatives share the names of their members and differ in their tags alone (`shown_tagged_iff`).
  The tags of declared types stand where those of other types stand (`Ty.eq_user_of_shown`).
* What is absent shows as `null`, and nothing that is present may do so (`shown_option_inj`).
* A literal that is no finite number shows as `null` as well, whichever it is. So the values have to
  be printable, in declarations as in defaults and in the numbers of enum members.
-/

namespace IdlLinker

open Json Decimal

/-! ## Parts of documents -/

theorem shown_ofNat_iff {n n' : Nat} : (ofNat n).shown = (ofNat n').shown ↔ n = n' := by
  rw [ofNat, ofNat, shown_int_iff, Int.natCast_inj]

theorem shown_tagged_iff {name name' : String} {ms ms' : List (String × Json)} :
    (tagged name ms).shown = (tagged name' ms').shown ↔
      name = name' ∧ shownMembers ms = shownMembers ms' := by
  rw [tagged, tagged, shown_object_iff, shownMembers, shownMembers, List.cons.injEq,
    Prod.mk.injEq, shown_text_iff, eq_self, true_and]

/-- What may be absent is told apart if nothing that is present shows as absent. -/
theorem shown_option_inj {α : Type} {write : α → Json} {a? b? : Option α}
    (present : ∀ a, (write a).shown ≠ .null)
    (inj : ∀ a, a? = some a → ∀ b, b? = some b → (write a).shown = (write b).shown → a = b)
    (h : (ofOption write a?).shown = (ofOption write b?).shown) : a? = b? := by
  cases a? with
  | none =>
    cases b? with
    | none => rfl
    | some b => exact absurd h.symm (present b)
  | some a =>
    cases b? with
    | none => exact absurd h (present a)
    | some b => rw [inj a rfl b rfl h]

theorem shown_number?_inj {n? n'? : Option UInt32}
    (h : (ofOption (fun n : UInt32 ↦ ofNat n.toNat) n?).shown =
      (ofOption (fun n : UInt32 ↦ ofNat n.toNat) n'?).shown) : n? = n'? := by
  refine shown_option_inj (fun n ↦ ?_) (fun n _ n' _ h ↦ ?_) h
  · rw [ofNat, shown]
    exact Shown.noConfusion
  · exact UInt32.toNat_inj.mp (shown_ofNat_iff.mp h)

/-! ## Literals and names -/

/-- A literal is told apart by its type and its scalar, if the scalar has a JSON form. -/
theorem Literal.shown_inj {l l' : Literal} (hl : l.isRepresentable = true)
    (hl' : l'.isRepresentable = true) (h : l.toJson.shown = l'.toJson.shown) : l = l' := by
  simp only [toJson, shown_object_iff, shownMembers_cons_iff, shown_text_iff, and_true] at h
  obtain ⟨type, scalar⟩ := h
  -- Only literals of one type are left, for the scalar alone does not tell `1` of two widths apart.
  cases l <;> cases l' <;> simp only [typeName, String.reduceEq] at type
  case bool => rw [shown_bool_iff.mp scalar]
  case int8 => rw [Int8.toInt_inj.mp (shown_int_iff.mp scalar)]
  case int16 => rw [Int16.toInt_inj.mp (shown_int_iff.mp scalar)]
  case int32 => rw [Int32.toInt_inj.mp (shown_int_iff.mp scalar)]
  case int64 => rw [Int64.toInt_inj.mp (shown_int_iff.mp scalar)]
  case uint8 => rw [UInt8.toNat_inj.mp (shown_ofNat_iff.mp scalar)]
  case uint16 => rw [UInt16.toNat_inj.mp (shown_ofNat_iff.mp scalar)]
  case uint32 => rw [UInt32.toNat_inj.mp (shown_ofNat_iff.mp scalar)]
  case uint64 => rw [UInt64.toNat_inj.mp (shown_ofNat_iff.mp scalar)]
  case float => rw [shownNumber_inj (l := layout32) rfl hl hl' scalar]
  case double => rw [shownNumber_inj (l := layout64) rfl hl hl' scalar]
  case string => rw [shown_text_iff.mp scalar]

/-- Infinities of different signs have the same document. -/
example :
    (Literal.float (.ofMagnitude false Format.single.infinity)).toJson.compact =
      (Literal.float (.ofMagnitude true Format.single.infinity)).toJson.compact := by
  decide

theorem Builtin.name_injective : Function.Injective Builtin.name := by
  intro b b' h
  cases b <;> cases b' <;> simp only [Builtin.name, String.reduceEq] at h ⊢

theorem Primitive.name_injective : Function.Injective Primitive.name := by
  intro p p' h
  cases p <;> cases p' <;> simp only [Primitive.name, String.reduceEq] at h ⊢

theorem Handle.name_injective : Function.Injective Handle.name := by
  intro h h' same
  cases h <;> cases h' <;> simp only [Handle.name, String.reduceEq] at same ⊢

theorem TypeTag.name_injective : Function.Injective TypeTag.name := by
  intro t t' h
  cases t <;> cases t' <;> simp only [TypeTag.name, String.reduceEq] at h ⊢

/-! ## Types and values -/

theorem Id.shown_inj {space : Space} {id id' : Id space} (h : id.toJson.shown = id'.toJson.shown) :
    id = id' :=
  congrArg Id.mk (shown_ofNat_iff.mp h)

theorem Id.shown_listToJson_inj {space : Space} {ids ids' : List (Id space)}
    (h : (Id.listToJson ids).shown = (Id.listToJson ids').shown) : ids = ids' :=
  shown_list_inj (fun _ _ _ _ ↦ Id.shown_inj) h

theorem UserType.shown_inj {u u' : UserType} (h : u.toJson.shown = u'.toJson.shown) : u = u' := by
  simp only [toJson, shown_tagged_iff, shownMembers_cons_iff, shown_ofNat_iff, and_true] at h
  rw [← UserType.ofTag_tag_index u, TypeTag.name_injective h.1, h.2, UserType.ofTag_tag_index]

theorem UserType.shown_ofOption_inj {u? u'? : Option UserType}
    (h : (ofOption UserType.toJson u?).shown = (ofOption UserType.toJson u'?).shown) :
    u? = u'? := by
  refine shown_option_inj (fun u ↦ ?_) (fun _ _ _ _ ↦ UserType.shown_inj) h
  rw [toJson, tagged, shown]
  exact Shown.noConfusion

namespace Ty

/-- No tag of a declared type is the tag of another type. -/
theorem eq_user_of_shown {t : Ty} {u : UserType}
    (h : t.toJson.shown = (Ty.user u).toJson.shown) : t = .user u := by
  cases t with
  | user u' => rw [UserType.shown_inj h]
  | _ =>
    cases u <;>
      simp only [toJson, UserType.toJson, UserType.tag, TypeTag.name, shown_tagged_iff,
        String.reduceEq, false_and] at h

/-- Types are told apart, by their tags and then part by part. -/
theorem shown_inj {t t' : Ty} (h : t.toJson.shown = t'.toJson.shown) : t = t' := by
  induction t generalizing t' with
  | user u => exact (eq_user_of_shown h.symm).symm
  | primitive p =>
    cases t' with
    | user => exact eq_user_of_shown h
    | primitive p' =>
      simp only [toJson, shown_tagged_iff, shownMembers_cons_iff, shown_text_iff] at h
      rw [Primitive.name_injective h.2.1]
    | _ => simp only [toJson, shown_tagged_iff, String.reduceEq, false_and] at h
  | string =>
    cases t' with
    | user => exact eq_user_of_shown h
    | string => rfl
    | _ => simp only [toJson, shown_tagged_iff, String.reduceEq, false_and] at h
  | handle k =>
    cases t' with
    | user => exact eq_user_of_shown h
    | handle k' =>
      simp only [toJson, shown_tagged_iff, shownMembers_cons_iff, shown_text_iff] at h
      rw [Handle.name_injective h.2.1]
    | _ => simp only [toJson, shown_tagged_iff, String.reduceEq, false_and] at h
  | array element nullable length? ih =>
    cases t' with
    | user => exact eq_user_of_shown h
    | array element' nullable' length'? =>
      simp only [toJson, shown_tagged_iff, shown_object_iff, shownMembers_cons_iff,
        shown_bool_iff, and_true, true_and] at h
      obtain ⟨⟨element, nullable⟩, length⟩ := h
      rw [ih element, nullable, shown_number?_inj length]
    | _ => simp only [toJson, shown_tagged_iff, String.reduceEq, false_and] at h
  | map key keyNullable value valueNullable ihKey ihValue =>
    cases t' with
    | user => exact eq_user_of_shown h
    | map key' keyNullable' value' valueNullable' =>
      simp only [toJson, shown_tagged_iff, shown_object_iff, shownMembers_cons_iff,
        shown_bool_iff, and_true, true_and] at h
      obtain ⟨⟨key, keyNullable⟩, value, valueNullable⟩ := h
      rw [ihKey key, keyNullable, ihValue value, valueNullable]
    | _ => simp only [toJson, shown_tagged_iff, String.reduceEq, false_and] at h
  | request id =>
    cases t' with
    | user => exact eq_user_of_shown h
    | request id' =>
      simp only [toJson, shown_tagged_iff, shownMembers_cons_iff] at h
      rw [Id.shown_inj h.2.1]
    | _ => simp only [toJson, shown_tagged_iff, String.reduceEq, false_and] at h

end Ty

theorem Kind.shown_inj {k k' : Kind} (h : k.toJson.shown = k'.toJson.shown) : k = k' := by
  obtain ⟨ty, nullable⟩ := k
  obtain ⟨ty', nullable'⟩ := k'
  simp only [toJson, shown_object_iff, shownMembers_cons_iff, shown_bool_iff] at h
  rw [Ty.shown_inj h.1, h.2.1]

theorem ValueRef.shown_inj {r r' : ValueRef} (h : r.toJson.shown = r'.toJson.shown) : r = r' := by
  cases r <;> cases r' <;>
    simp only [toJson, shown_tagged_iff, shownMembers_cons_iff, String.reduceEq, false_and] at h
  case constant => rw [Id.shown_inj h.2.1]
  case member => rw [Id.shown_inj h.2.1]

/-- A value has a JSON form: a literal has to be finite, if it is of a floating point type. -/
def Value.IsPrintable (v : Value) : Prop := ∀ l, v = .literal l → l.isRepresentable = true

theorem Value.shown_inj {v v' : Value} (hv : v.IsPrintable) (hv' : v'.IsPrintable)
    (h : v.toJson.shown = v'.toJson.shown) : v = v' := by
  cases v <;> cases v' <;>
    simp only [toJson, shown_tagged_iff, shownMembers_cons_iff, String.reduceEq, false_and] at h
  case literal => rw [Literal.shown_inj (hv _ rfl) (hv' _ rfl) h.2.1]
  case builtin => rw [Builtin.name_injective (shown_text_iff.mp h.2.1)]
  case reference => rw [ValueRef.shown_inj h.2.1]

/-! ## Declarations -/

theorem Attributes.shown_inj {as as' : Attributes}
    (h : (Attributes.toJson as).shown = (Attributes.toJson as').shown) : as = as' :=
  congrArg Table.mk
    (shownMembers_inj (fun _ _ _ _ ↦ shown_text_iff.mp) (shown_object_iff.mp h))

theorem Owner.shown_inj {o o' : Owner} (h : o.toJson.shown = o'.toJson.shown) : o = o' := by
  cases o <;> cases o' <;>
    simp only [toJson, shown_tagged_iff, shownMembers_cons_iff, String.reduceEq, false_and] at h
  case here => rfl
  case imported =>
    exact congrArg (fun i ↦ Owner.imported ⟨i⟩) (shown_ofNat_iff.mp h.2.1)

namespace Module

def FieldDefault.IsPrintable (d : FieldDefault) : Prop := ∀ v, d = .value v → v.IsPrintable

theorem FieldDefault.shown_inj {d d' : FieldDefault} (hd : d.IsPrintable) (hd' : d'.IsPrintable)
    (h : d.toJson.shown = d'.toJson.shown) : d = d' := by
  cases d <;> cases d' <;>
    simp only [toJson, shown_tagged_iff, shownMembers_cons_iff, String.reduceEq, false_and] at h
  case value => rw [Value.shown_inj (hd _ rfl) (hd' _ rfl) h.2.1]
  case keyword => rfl

def Field.IsPrintable (f : Field) : Prop := ∀ d, f.default? = some d → d.IsPrintable

theorem Field.shown_inj {f f' : Field} (hf : f.IsPrintable) (hf' : f'.IsPrintable)
    (h : f.toJson.shown = f'.toJson.shown) : f = f' := by
  cases f
  cases f'
  simp only [toJson, shown_object_iff, shownMembers_cons_iff, shown_text_iff, and_true] at h
  obtain ⟨name, kind, ordinal, default, attributes⟩ := h
  have notNull (d : FieldDefault) : d.toJson.shown ≠ .null := by
    cases d <;> exact Shown.noConfusion
  rw [Field.mk.injEq]
  exact ⟨name, Kind.shown_inj kind, shown_number?_inj ordinal,
    shown_option_inj notNull
      (fun d hd d' hd' ↦ FieldDefault.shown_inj (hf d hd) (hf' d' hd')) default,
    Attributes.shown_inj attributes⟩

def Struct.IsPrintable (s : Struct) : Prop := ∀ f ∈ s.fields, f.IsPrintable

theorem Struct.shown_inj {s s' : Struct} (hs : s.IsPrintable) (hs' : s'.IsPrintable)
    (h : s.toJson.shown = s'.toJson.shown) : s = s' := by
  cases s
  cases s'
  simp only [toJson, shown_object_iff, shownMembers_cons_iff, shown_text_iff, and_true] at h
  obtain ⟨name, spec, owner, attributes, fields, enums, constants⟩ := h
  rw [Struct.mk.injEq]
  exact ⟨name, spec, Owner.shown_inj owner, Attributes.shown_inj attributes,
    shown_list_inj (fun f hf f' hf' ↦ Field.shown_inj (hs f hf) (hs' f' hf')) fields,
    Id.shown_listToJson_inj enums, Id.shown_listToJson_inj constants⟩

def Union.IsPrintable (u : Union) : Prop := ∀ f ∈ u.fields, f.IsPrintable

theorem Union.shown_inj {u u' : Union} (hu : u.IsPrintable) (hu' : u'.IsPrintable)
    (h : u.toJson.shown = u'.toJson.shown) : u = u' := by
  cases u
  cases u'
  simp only [toJson, shown_object_iff, shownMembers_cons_iff, shown_text_iff, and_true] at h
  obtain ⟨name, spec, owner, attributes, fields⟩ := h
  rw [Union.mk.injEq]
  exact ⟨name, spec, Owner.shown_inj owner, Attributes.shown_inj attributes,
    shown_list_inj (fun f hf f' hf' ↦ Field.shown_inj (hu f hf) (hu' f' hf')) fields⟩

/-- The number as the source wrote it has a JSON form, if there is one. -/
def Enumerator.IsPrintable (e : Enumerator) : Prop := ∀ v, e.value? = some v → v.IsPrintable

theorem Enumerator.shown_inj {e e' : Enumerator} (he : e.IsPrintable) (he' : e'.IsPrintable)
    (h : e.toJson.shown = e'.toJson.shown) : e = e' := by
  cases e
  cases e'
  simp only [toJson, shown_object_iff, shownMembers_cons_iff, shown_text_iff, shown_int_iff,
    and_true] at h
  obtain ⟨name, attributes, number, value⟩ := h
  have notNull (v : Value) : v.toJson.shown ≠ .null := by
    cases v <;> exact Shown.noConfusion
  rw [Enumerator.mk.injEq]
  exact ⟨name, Attributes.shown_inj attributes, Int32.toInt_inj.mp number,
    shown_option_inj notNull (fun v hv v' hv' ↦ Value.shown_inj (he v hv) (he' v' hv')) value⟩

/-- The numbers of all members have a JSON form. -/
def Enum.IsPrintable (e : Enum) : Prop := ∀ f ∈ e.fields, f.IsPrintable

theorem Enum.shown_inj {e e' : Enum} (he : e.IsPrintable) (he' : e'.IsPrintable)
    (h : e.toJson.shown = e'.toJson.shown) : e = e' := by
  cases e
  cases e'
  simp only [toJson, shown_object_iff, shownMembers_cons_iff, shown_text_iff, and_true] at h
  obtain ⟨name, spec, owner, attributes, parent, fields⟩ := h
  rw [Enum.mk.injEq]
  exact ⟨name, spec, Owner.shown_inj owner, Attributes.shown_inj attributes,
    UserType.shown_ofOption_inj parent,
    shown_list_inj (fun f hf f' hf' ↦ Enumerator.shown_inj (he f hf) (he' f' hf')) fields⟩

theorem Parameter.shown_inj {p p' : Parameter} (h : p.toJson.shown = p'.toJson.shown) :
    p = p' := by
  cases p
  cases p'
  simp only [toJson, shown_object_iff, shownMembers_cons_iff, shown_text_iff, and_true] at h
  obtain ⟨name, kind, ordinal, attributes⟩ := h
  rw [Parameter.mk.injEq]
  exact ⟨name, Kind.shown_inj kind, shown_number?_inj ordinal, Attributes.shown_inj attributes⟩

/-- A method without response is told apart from one that answers nothing. -/
theorem Method.shown_inj {m m' : Method} (h : m.toJson.shown = m'.toJson.shown) : m = m' := by
  have parameters {ps ps' : List Parameter}
      (h : (Parameter.listToJson ps).shown = (Parameter.listToJson ps').shown) : ps = ps' :=
    shown_list_inj (fun _ _ _ _ ↦ Parameter.shown_inj) h
  have notNull (ps : List Parameter) : (Parameter.listToJson ps).shown ≠ .null := by
    rw [Parameter.listToJson, shown]
    exact Shown.noConfusion
  cases m
  cases m'
  simp only [toJson, shown_object_iff, shownMembers_cons_iff, shown_text_iff, shown_ofNat_iff,
    and_true] at h
  obtain ⟨name, ordinal, attributes, request, response⟩ := h
  rw [Method.mk.injEq]
  exact ⟨name, UInt32.toNat_inj.mp ordinal, Attributes.shown_inj attributes, parameters request,
    shown_option_inj notNull (fun _ _ _ _ ↦ parameters) response⟩

theorem Interface.shown_inj {i i' : Interface} (h : i.toJson.shown = i'.toJson.shown) :
    i = i' := by
  have notNull (s : String) : (Json.text s).shown ≠ .null := by
    rw [shown]
    exact Shown.noConfusion
  cases i
  cases i'
  simp only [toJson, shown_object_iff, shownMembers_cons_iff, shown_text_iff, and_true] at h
  obtain ⟨name, spec, owner, attributes, service, methods, enums, constants⟩ := h
  rw [Interface.mk.injEq]
  exact ⟨name, spec, Owner.shown_inj owner, Attributes.shown_inj attributes,
    shown_option_inj notNull (fun _ _ _ _ ↦ shown_text_iff.mp) service,
    shown_list_inj (fun _ _ _ _ ↦ Method.shown_inj) methods,
    Id.shown_listToJson_inj enums, Id.shown_listToJson_inj constants⟩

theorem Constant.shown_inj {c c' : Constant} (hc : c.value.IsPrintable)
    (hc' : c'.value.IsPrintable) (h : c.toJson.shown = c'.toJson.shown) : c = c' := by
  cases c
  cases c'
  simp only [toJson, shown_object_iff, shownMembers_cons_iff, shown_text_iff, and_true] at h
  obtain ⟨name, owner, kind, value, parent⟩ := h
  rw [Constant.mk.injEq]
  exact ⟨name, Owner.shown_inj owner, Kind.shown_inj kind, Value.shown_inj hc hc' value,
    UserType.shown_ofOption_inj parent⟩

theorem Member.shown_inj {m m' : Member} (h : m.toJson.shown = m'.toJson.shown) : m = m' := by
  cases m
  cases m'
  simp only [toJson, shown_object_iff, shownMembers_cons_iff, shown_text_iff, and_true] at h
  obtain ⟨name, enum, owner, moduleNamespace, parent⟩ := h
  rw [Member.mk.injEq]
  exact ⟨name, Id.shown_inj enum, Owner.shown_inj owner, moduleNamespace,
    UserType.shown_ofOption_inj parent⟩

structure Declarations.IsPrintable (d : Declarations) : Prop where
  structs : ∀ s ∈ d.structs.items, s.IsPrintable
  unions : ∀ u ∈ d.unions.items, u.IsPrintable
  enums : ∀ e ∈ d.enums.items, e.IsPrintable
  constants : ∀ c ∈ d.constants.items, c.value.IsPrintable

theorem Declarations.shown_inj {d d' : Declarations} (hd : d.IsPrintable) (hd' : d'.IsPrintable)
    (h : d.toJson.shown = d'.toJson.shown) : d = d' := by
  cases d
  cases d'
  simp only [toJson, shown_object_iff, shownMembers_cons_iff, and_true] at h
  obtain ⟨structs, unions, enums, interfaces, constants, members⟩ := h
  rw [Declarations.mk.injEq]
  exact ⟨
    congrArg Arena.mk (shown_list_inj
      (fun s hs s' hs' ↦ Struct.shown_inj (hd.structs s hs) (hd'.structs s' hs')) structs),
    congrArg Arena.mk (shown_list_inj
      (fun u hu u' hu' ↦ Union.shown_inj (hd.unions u hu) (hd'.unions u' hu')) unions),
    congrArg Arena.mk (shown_list_inj
      (fun e he e' he' ↦ Enum.shown_inj (hd.enums e he) (hd'.enums e' he')) enums),
    congrArg Arena.mk (shown_list_inj (fun _ _ _ _ ↦ Interface.shown_inj) interfaces),
    congrArg Arena.mk (shown_list_inj
      (fun c hc c' hc' ↦ Constant.shown_inj (hd.constants c hc) (hd'.constants c' hc')) constants),
    congrArg Arena.mk (shown_list_inj (fun _ _ _ _ ↦ Member.shown_inj) members)⟩

/-! ## Modules -/

/-- The documents of imports, each under the name of its file. -/
def Import.toJson (i : Import Module) : Json :=
  .object
    [("module_name", .text i.moduleName), ("namespace", .text i.moduleNamespace),
      ("module", i.module.toJson)]

theorem Import.shown_inj {i i' : Import Module}
    (inj : i.module.toJson.shown = i'.module.toJson.shown → i.module = i'.module)
    (h : i.toJson.shown = i'.toJson.shown) : i = i' := by
  cases i
  cases i'
  simp only [toJson, shown_object_iff, shownMembers_cons_iff, shown_text_iff, and_true] at h
  obtain ⟨moduleName, moduleNamespace, module⟩ := h
  rw [Import.mk.injEq]
  exact ⟨moduleName, moduleNamespace, inj module⟩

theorem importsToJson_eq (entries : List (FileId × Import Module)) :
    importsToJson entries = entries.map fun e ↦ (e.1, e.2.toJson) := by
  induction entries with
  | nil => rw [importsToJson, List.map_nil]
  | cons e rest ih =>
    rw [importsToJson, ih]
    rfl

/-- All values in a module and in the modules that describe its imports have a JSON form. -/
inductive IsPrintable : Module → Prop where
  | mk {m : Module} (here : m.declarations.IsPrintable)
      (imports : ∀ e ∈ m.transitiveImports.entries, IsPrintable e.2.module) : IsPrintable m

/-- **What is shown of a module determines the module.** -/
theorem IsPrintable.eq_of_shown {m m' : Module} (hm : m.IsPrintable) (hm' : m'.IsPrintable)
    (h : m.toJson.shown = m'.toJson.shown) : m = m' := by
  induction hm generalizing m' with
  | @mk m here imports ih =>
    obtain ⟨here', imports'⟩ := hm'
    cases m
    cases m'
    simp only [toJson, importsToJson_eq, shown_object_iff, shownMembers_cons_iff, shown_text_iff,
      and_true] at h
    obtain ⟨name, specifiedName, path, moduleNamespace, attributes, direct, listed, constants,
      enums, structs, unions, interfaces, declarations⟩ := h
    -- Imports hold modules in turn, and these are told apart by the induction hypothesis.
    have sameImports := shownMembers_inj
      (fun e he e' he' ↦ Import.shown_inj (ih e he (imports' e' he'))) listed
    rw [Module.mk.injEq]
    exact ⟨name, specifiedName, path, moduleNamespace, Attributes.shown_inj attributes,
      shown_list_inj (fun _ _ _ _ h ↦ congrArg ImportId.mk (shown_ofNat_iff.mp h)) direct,
      congrArg Table.mk sameImports, Id.shown_listToJson_inj constants,
      Id.shown_listToJson_inj enums, Id.shown_listToJson_inj structs,
      Id.shown_listToJson_inj unions, Id.shown_listToJson_inj interfaces,
      Declarations.shown_inj here here' declarations⟩

end Module

end IdlLinker
