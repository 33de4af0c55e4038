import IdlLinker.Link.Walk
import IdlLinker.Proofs.Table

/-!
# Renaming keys

A graph with other keys says the same, as long as different keys stay different and every place that
held a key holds the new one: the tables of types and values, the lists of files and of nested
declarations, containers, the enums of members, and each use of a type or value. This module renames
the keys of a graph and of what is said about it, the requirements of declarations and the errors of
a link. Names of files are no keys in this sense. They stay as they are, and so does every text that
a declaration carries.

## Types and values apart

Keys of types and keys of values are renamed independently, so that one text may be renamed in two
ways, according to the table that it leads into.

## Main statements

* `Table.find?_mapEntries`: a renamed table holds under a new key what it held under the old one.
* `requirementsOfTypeDecl_rename` and its like: a renamed declaration requires the same under new
  keys, in the same order.
-/

namespace IdlLinker

open IdlLinker.Graph

/-- New keys for types and new keys for values. Different keys stay different. -/
structure Renaming where
  type : TypeKey → TypeKey
  value : ValueKey → ValueKey
  type_injective : Function.Injective type
  value_injective : Function.Injective value

/-! ## Tables -/

namespace Table

variable {κ κ' α β : Type}

/-- The same entries in the same order, with other keys and other values. -/
def mapEntries (r : κ → κ') (p : α → β) (t : Table κ α) : Table κ' β :=
  ⟨t.entries.map fun e ↦ (r e.1, p e.2)⟩

theorem keys_mapEntries (r : κ → κ') (p : α → β) (t : Table κ α) :
    (t.mapEntries r p).keys = t.keys.map r := by
  rw [keys, keys, mapEntries, List.map_map, List.map_map]
  rfl

@[simp] theorem values_mapEntries (r : κ → κ') (p : α → β) (t : Table κ α) :
    (t.mapEntries r p).values = t.values.map p := by
  rw [values, values, mapEntries, List.map_map, List.map_map]
  rfl

variable [DecidableEq κ] [DecidableEq κ']

theorem lookup_mapEntries {r : κ → κ'} (hr : Function.Injective r) (p : α → β) (k : κ)
    (es : List (κ × α)) :
    lookup (r k) (es.map fun e ↦ (r e.1, p e.2)) = (lookup k es).map p := by
  induction es with
  | nil => rfl
  | cons e rest ih =>
    rw [List.map_cons, lookup, lookup, ih]
    by_cases same : e.1 = k
    · rw [if_pos same, if_pos (congrArg r same), Option.map_some]
    · rw [if_neg same, if_neg (hr.ne same)]

theorem find?_mapEntries {r : κ → κ'} (hr : Function.Injective r) (p : α → β) (t : Table κ α)
    (k : κ) : (t.mapEntries r p).find? (r k) = (t.find? k).map p :=
  lookup_mapEntries hr p k t.entries

theorem find?_mapValues (p : α → β) (t : Table κ α) (k : κ) :
    (t.mapValues p).find? k = (t.find? k).map p :=
  lookup_mapEntries Function.injective_id p k t.entries

omit [DecidableEq κ] in
theorem keys_mapValues (p : α → β) (t : Table κ α) : (t.mapValues p).keys = t.keys :=
  List.map_map

theorem store_mapEntries {r : κ → κ'} (hr : Function.Injective r) (p : α → β) (k : κ) (a : α)
    (es : List (κ × α)) :
    (store k a es).map (fun e ↦ (r e.1, p e.2)) =
      store (r k) (p a) (es.map fun e ↦ (r e.1, p e.2)) := by
  induction es with
  | nil => rfl
  | cons e rest ih =>
    rw [List.map_cons, store, store]
    by_cases same : e.1 = k
    · rw [if_pos same, if_pos (congrArg r same), List.map_cons]
    · rw [if_neg same, if_neg (hr.ne same), List.map_cons, ih]

theorem insert_mapEntries {r : κ → κ'} (hr : Function.Injective r) (p : α → β) (t : Table κ α)
    (k : κ) (a : α) : (t.insert k a).mapEntries r p = (t.mapEntries r p).insert (r k) (p a) :=
  congrArg Table.mk (store_mapEntries hr p k a t.entries)

theorem idxOf_map {r : κ → κ'} (hr : Function.Injective r) (k : κ) (ks : List κ) :
    (ks.map r).idxOf (r k) = ks.idxOf k := by
  induction ks with
  | nil => rfl
  | cons k' rest ih =>
    rw [List.map_cons]
    by_cases same : k' = k
    · rw [same, List.idxOf_cons_self, List.idxOf_cons_self]
    · rw [List.idxOf_cons_ne _ (hr.ne same), List.idxOf_cons_ne _ same, ih]

theorem index_mapEntries {r : κ → κ'} (hr : Function.Injective r) (p : α → β) (t : Table κ α)
    (k : κ) : (t.mapEntries r p).index (r k) = t.index k := by
  rw [index, index, keys_mapEntries, idxOf_map hr]

end Table

/-- The same numbers with other values. -/
def Numbered.map {α β : Type} (p : α → β) (t : Numbered α) : Numbered β :=
  ⟨t.entries.map fun e ↦ (e.1, p e.2), List.pairwise_map.mpr t.increasing⟩

/-! ## Declarations -/

namespace Graph

variable (ρ : Renaming)

def TypeReference.rename (r : TypeReference) : TypeReference := { r with key := ρ.type r.key }

def TypeExpr.rename : TypeExpr → TypeExpr
  | .primitive p => .primitive p
  | .string nullable => .string nullable
  | .handle nullable kind => .handle nullable kind
  | .array nullable length element => .array nullable length element.rename
  | .map nullable key value => .map nullable key.rename value.rename
  | .reference r => .reference (r.rename ρ)

def ValueReference.rename (r : ValueReference) : ValueReference := { r with key := ρ.value r.key }

def ValueExpr.rename : ValueExpr → ValueExpr
  | .literal l => .literal l
  | .builtin b => .builtin b
  | .reference r => .reference (r.rename ρ)

def FieldDefault.rename : FieldDefault → FieldDefault
  | .value v => .value (v.rename ρ)
  | .keyword => .keyword

def Contained.rename (c : Contained) : Contained where
  enums := c.enums.map ρ.type
  constants := c.constants.map ρ.value

/-- The names and the place of a declaration are no keys. -/
def Info.rename (d : Info) : Info :=
  { d with
    container? := d.container?.map ρ.type
    contained? := d.contained?.map (Contained.rename ρ) }

def StructField.rename (f : StructField) : StructField where
  info := f.info.rename ρ
  type := f.type.rename ρ
  default? := f.default?.map (FieldDefault.rename ρ)

def Struct.rename (d : Struct) : Struct where
  info := d.info.rename ρ
  fields := d.fields.map (StructField.rename ρ)

def UnionField.rename (f : UnionField) : UnionField where
  info := f.info.rename ρ
  type := f.type.rename ρ

def Union.rename (d : Union) : Union where
  info := d.info.rename ρ
  fields := d.fields.map (UnionField.rename ρ)

def Enumerator.rename (d : Enumerator) : Enumerator where
  info := d.info.rename ρ
  enum := ρ.type d.enum
  initializer? := d.initializer?.map (ValueExpr.rename ρ)
  number := d.number

def Enum.rename (d : Enum) : Enum where
  info := d.info.rename ρ
  values := d.values.map (Enumerator.rename ρ)

def Method.rename (m : Method) : Method where
  info := m.info.rename ρ
  parameters := m.parameters.rename ρ
  response? := m.response?.map (Struct.rename ρ)
  ordinal := m.ordinal

def Interface.rename (d : Interface) : Interface where
  info := d.info.rename ρ
  service? := d.service?
  methods := d.methods.map (Method.rename ρ)

def TypeDecl.rename : TypeDecl → TypeDecl
  | .enum d => .enum (d.rename ρ)
  | .struct d => .struct (d.rename ρ)
  | .union d => .union (d.rename ρ)
  | .interface d => .interface (d.rename ρ)

def Constant.rename (d : Constant) : Constant where
  info := d.info.rename ρ
  type := d.type.rename ρ
  value := d.value.rename ρ

def ValueDecl.rename : ValueDecl → ValueDecl
  | .enumerator d => .enumerator (d.rename ρ)
  | .constant d => .constant (d.rename ρ)

def TopLevel.rename (d : TopLevel) : TopLevel where
  constants := d.constants.map ρ.value
  enums := d.enums.map ρ.type
  structs := d.structs.map ρ.type
  unions := d.unions.map ρ.type
  interfaces := d.interfaces.map ρ.type

/-- The imports of a file are names of files, which stay. -/
def SourceFile.rename (file : SourceFile) : SourceFile :=
  { file with declared? := file.declared?.map (TopLevel.rename ρ) }

/-- **A graph with other keys**, in the same order. -/
def rename (g : Graph) : Graph where
  files := g.files.mapValues (SourceFile.rename ρ)
  types := g.types.mapEntries ρ.type (TypeDecl.rename ρ)
  values := g.values.mapEntries ρ.value (ValueDecl.rename ρ)

end Graph

/-- An error about renamed keys. Only the key at fault is renamed. -/
def LinkError.rename (ρ : Renaming) : LinkError → LinkError
  | .missingType key => .missingType (ρ.type key)
  | .missingValue key => .missingValue (ρ.value key)
  | .typeMismatch key expected actual => .typeMismatch (ρ.type key) expected actual
  | .valueMismatch key expected actual => .valueMismatch (ρ.value key) expected actual
  | .missingFile name => .missingFile name
  | .missingSource name => .missingSource name
  | .notImported name file importer => .notImported name file importer
  | .unrepresentable literal => .unrepresentable literal

/-! ## Lookups -/

namespace Graph

variable (ρ : Renaming) (g : Graph)

theorem find?_files_rename (f : FileId) :
    (g.rename ρ).files.find? f = (g.files.find? f).map (SourceFile.rename ρ) :=
  Table.find?_mapValues _ _ _

theorem find?_types_rename (key : TypeKey) :
    (g.rename ρ).types.find? (ρ.type key) = (g.types.find? key).map (TypeDecl.rename ρ) :=
  Table.find?_mapEntries ρ.type_injective _ _ _

theorem find?_values_rename (key : ValueKey) :
    (g.rename ρ).values.find? (ρ.value key) = (g.values.find? key).map (ValueDecl.rename ρ) :=
  Table.find?_mapEntries ρ.value_injective _ _ _

@[simp] theorem TypeDecl.tag_rename (d : TypeDecl) : (d.rename ρ).tag = d.tag := by
  cases d <;> rfl

end Graph

/-! ## Requirements -/

namespace Link

variable (ρ : Renaming)

def Requirement.rename : Requirement → Requirement
  | .source name source? => .source name source?
  | .literal l => .literal l
  | .type key expected? => .type (ρ.type key) expected?
  | .container enum key => .container (ρ.type enum) (ρ.type key)
  | .constant key => .constant (ρ.value key)
  | .value key => .value (ρ.value key)

@[simp] theorem requirementsOfType_rename (t : TypeExpr) :
    requirementsOfType (t.rename ρ) = (requirementsOfType t).map (Requirement.rename ρ) := by
  induction t with
  | primitive p => rfl
  | string nullable => rfl
  | handle nullable kind => rfl
  | array nullable length element ih => exact ih
  | map nullable key value ihk ihv =>
    rw [TypeExpr.rename, requirementsOfType, requirementsOfType, ihk, ihv, List.map_append]
  | reference r => rfl

@[simp] theorem requirementsOfValue_rename (v : ValueExpr) :
    requirementsOfValue (v.rename ρ) = (requirementsOfValue v).map (Requirement.rename ρ) := by
  cases v <;> rfl

@[simp] theorem requirementsOfDefault_rename (default? : Option FieldDefault) :
    requirementsOfDefault (default?.map (FieldDefault.rename ρ)) =
      (requirementsOfDefault default?).map (Requirement.rename ρ) := by
  match default? with
  | none => rfl
  | some .keyword => rfl
  | some (.value v) => exact requirementsOfValue_rename ρ v

@[simp] theorem requirementOfSource_rename (d : Info) :
    requirementOfSource (d.rename ρ) = (requirementOfSource d).rename ρ := rfl

@[simp] theorem requirementsOfContained_rename (d : Info) :
    requirementsOfContained (d.rename ρ) =
      (requirementsOfContained d).map (Requirement.rename ρ) := by
  rw [requirementsOfContained, requirementsOfContained, Info.rename]
  cases d.contained? with
  | none => rfl
  | some c =>
    simp only [Option.map_some, Contained.rename, List.map_append, List.map_map]
    rfl

@[simp] theorem requirementsOfParameters_rename (d : Struct) :
    requirementsOfParameters (d.rename ρ) =
      (requirementsOfParameters d).map (Requirement.rename ρ) := by
  simp [requirementsOfParameters, Struct.rename, StructField.rename, List.flatMap_map,
    List.map_flatMap]

@[simp] theorem requirementsOfMethod_rename (m : Method) :
    requirementsOfMethod (m.rename ρ) = (requirementsOfMethod m).map (Requirement.rename ρ) := by
  rw [requirementsOfMethod, requirementsOfMethod, List.map_append, Method.rename]
  cases m.response? <;> simp

/-- What a renamed declaration requires, in the same order. -/
theorem requirementsOfTypeDecl_rename (key : TypeKey) (d : TypeDecl) :
    requirementsOfTypeDecl (ρ.type key) (d.rename ρ) =
      (requirementsOfTypeDecl key d).map (Requirement.rename ρ) := by
  cases d with
  | struct d =>
    simp [requirementsOfTypeDecl, TypeDecl.rename, Struct.rename, StructField.rename,
      List.flatMap_map, List.map_flatMap]
  | union d =>
    simp [requirementsOfTypeDecl, TypeDecl.rename, Union.rename, UnionField.rename,
      List.flatMap_map, List.map_flatMap]
  | enum d =>
    have container : (d.info.rename ρ).container?.toList.map (.container (ρ.type key)) =
        (d.info.container?.toList.map (.container key)).map (Requirement.rename ρ) := by
      rw [Info.rename]
      cases d.info.container? <;> rfl
    have initializers : ∀ v : Enumerator,
        (v.rename ρ).initializer?.toList.flatMap requirementsOfValue =
          (v.initializer?.toList.flatMap requirementsOfValue).map (Requirement.rename ρ) := by
      intro v
      rw [Enumerator.rename]
      cases v.initializer? <;> simp
    simp [requirementsOfTypeDecl, TypeDecl.rename, Enum.rename, container, initializers,
      List.flatMap_map, List.map_flatMap]
  | interface d =>
    simp [requirementsOfTypeDecl, TypeDecl.rename, Interface.rename, Numbered.map,
      List.flatMap_map, List.map_flatMap]

theorem requirementsOfConstant_rename (d : Constant) :
    requirementsOfConstant (d.rename ρ) =
      (requirementsOfConstant d).map (Requirement.rename ρ) := by
  have container : (d.info.rename ρ).container?.toList.map (.type · none) =
      (d.info.container?.toList.map (.type · none)).map (Requirement.rename ρ) := by
    rw [Info.rename]
    cases d.info.container? <;> rfl
  simp [requirementsOfConstant, Constant.rename, container]

theorem requirementsOfEnumerator_rename (d : Enumerator) :
    requirementsOfEnumerator (d.rename ρ) =
      (requirementsOfEnumerator d).map (Requirement.rename ρ) := rfl

theorem requirementsOfFile_rename (source : SourceFile) :
    requirementsOfFile (source.rename ρ) =
      (requirementsOfFile source).map (Requirement.rename ρ) := by
  rw [requirementsOfFile, requirementsOfFile, SourceFile.rename]
  cases source.declared? with
  | none => rfl
  | some d =>
    simp only [Option.map_some, TopLevel.rename, List.map_append, List.map_map]
    rfl

end Link

end IdlLinker
