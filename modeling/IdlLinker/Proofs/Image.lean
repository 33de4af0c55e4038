import IdlLinker.Module.Basic
import IdlLinker.Proofs.Reach
import Mathlib.Data.List.Forall2
import Mathlib.Data.Set.Function

/-!
# What a faithful module is

A module is a picture of what a file reaches. Every declaration is there once, with the names,
places and attributes that the graph gives it, its parts in their order, and every key in it
replaced by the position of what the key leads to. This module says so part by part: an *image*
relation for types, for values, and for each kind of declaration, and `Faithful` for the whole.

The relations depend on a *naming*, which says what each key stands for. Nothing is said about where
a naming comes from: a module is faithful if there is one at all. In particular nothing here depends
on the order in which declarations were numbered.

## What is lost

A name that was written for a use of a declaration is gone, since the position of the declaration
says more; so are lines and columns. An ordinal that is negative stands for none, a length that is
not positive leaves an array open, and of several attributes with one key the last one counts.
-/

namespace IdlLinker

open IdlLinker.Graph

/-- What the keys of a graph stand for in a module. -/
structure Naming where
  type : TypeKey → UserType
  constant : ValueKey → ConstantId
  member : ValueKey → MemberId

variable (g : Graph) (f : FileId) (m : Module) (ρ : Naming)

/-! ## Parts of declarations -/

/-- A number stands for itself from `least` on; a smaller one stands for nothing. -/
def NumberImage (least : Int) (i : Int32) (n? : Option UInt32) : Prop :=
  ∀ n, n? = some n ↔ least ≤ i.toInt ∧ (n.toNat : Int) = i.toInt

/-- Attributes by key, in the order in which the keys first occur. Each key has the text of the last
attribute under it. -/
structure AttributesImage (attributes? : Option (List Attribute)) (t : Attributes) : Prop where
  keys : t.keys = ((attributes?.getD []).map Attribute.key).eraseDups
  texts : ∀ key, t.find? key =
    ((attributes?.getD []).filter (·.key = key)).getLast?.map (·.value.attributeText)

/-- A declaration of the file itself is owned by the module, and one of another file by the import
that stands for this file. -/
inductive OwnerImage : Option SourceInfo → Owner → Prop where
  | here {place : SourceInfo} (h : place.fileName = f) : OwnerImage (some place) .here
  | imported {place : SourceInfo} {id : ImportId} (h : place.fileName ≠ f)
    (hi : (m.transitiveImports.entry? id.index).map Prod.fst = some place.fileName) :
    OwnerImage (some place) (.imported id)

/-- A type becomes a type of the same shape. At each level it may be null as before, and the keys in
it are replaced by what they stand for. -/
inductive KindImage : TypeExpr → Kind → Prop where
  | primitive {p : Primitive} : KindImage (.primitive p) ⟨.primitive p, false⟩
  | string {nullable : Bool} : KindImage (.string nullable) ⟨.string, nullable⟩
  | handle {nullable : Bool} {h : Handle} : KindImage (.handle nullable h) ⟨.handle h, nullable⟩
  | array {nullable : Bool} {length : Int32} {element : TypeExpr} {k : Kind}
    {length? : Option UInt32} (he : KindImage element k) (hl : NumberImage 1 length length?) :
    KindImage (.array nullable length element) ⟨.array k.ty k.nullable length?, nullable⟩
  | map {nullable : Bool} {key value : TypeExpr} {k k' : Kind} (hk : KindImage key k)
    (hv : KindImage value k') :
    KindImage (.map nullable key value) ⟨.map k.ty k.nullable k'.ty k'.nullable, nullable⟩
  | user {r : TypeReference} (h : r.isRequest = false) :
    KindImage (.reference r) ⟨.user (ρ.type r.key), r.nullable⟩
  | request {r : TypeReference} {id : InterfaceId} (h : r.isRequest = true)
    (hid : ρ.type r.key = .interface id) : KindImage (.reference r) ⟨.request id, r.nullable⟩

/-- A value becomes itself, or what its key stands for. -/
inductive ValueImage : ValueExpr → Value → Prop where
  | literal {l : Literal} : ValueImage (.literal l) (.literal l)
  | builtin {b : Builtin} : ValueImage (.builtin b) (.builtin b)
  | constant {r : ValueReference} {d : Constant}
    (found : g.values.find? r.key = some (.constant d)) :
    ValueImage (.reference r) (.reference (.constant (ρ.constant r.key)))
  | member {r : ValueReference} {d : Enumerator}
    (found : g.values.find? r.key = some (.enumerator d)) :
    ValueImage (.reference r) (.reference (.member (ρ.member r.key)))

/-- The default of a struct field. -/
inductive DefaultImage : FieldDefault → Module.FieldDefault → Prop where
  | value {v : ValueExpr} {v' : Value} (h : ValueImage g ρ v v') :
    DefaultImage (.value v) (.value v')
  | keyword : DefaultImage .keyword .keyword

/-- A member of a struct. -/
structure StructFieldImage (d : StructField) (d' : Module.Field) : Prop where
  name : d'.name = d.info.shortName
  kind : KindImage ρ d.type d'.kind
  ordinal : NumberImage 0 d.info.ordinal d'.ordinal?
  default : Option.Rel (DefaultImage g ρ) d.default? d'.default?
  attributes : AttributesImage d.info.attributes? d'.attributes

/-- A member of a union, which has no default. -/
structure UnionFieldImage (d : UnionField) (d' : Module.Field) : Prop where
  name : d'.name = d.info.shortName
  kind : KindImage ρ d.type d'.kind
  ordinal : NumberImage 0 d.info.ordinal d'.ordinal?
  default : d'.default? = none
  attributes : AttributesImage d.info.attributes? d'.attributes

/-- A member of an enum, as part of the enum. -/
structure EnumeratorImage (d : Enumerator) (d' : Module.Enumerator) : Prop where
  name : d'.name = d.info.shortName
  number : d'.number = d.number
  value : Option.Rel (ValueImage g ρ) d.initializer? d'.value?
  attributes : AttributesImage d.info.attributes? d'.attributes

/-- A field of the struct in which parameters travel. -/
structure ParameterImage (d : StructField) (d' : Module.Parameter) : Prop where
  name : d'.name = d.info.shortName
  kind : KindImage ρ d.type d'.kind
  ordinal : NumberImage 0 d.info.ordinal d'.ordinal?
  attributes : AttributesImage d.info.attributes? d'.attributes

/-- A method. It is answered by as many parameters as the struct of its response has fields. -/
structure MethodImage (d : Method) (d' : Module.Method) : Prop where
  name : d'.name = d.info.shortName
  ordinal : d'.ordinal = d.ordinal
  parameters : List.Forall₂ (ParameterImage ρ) d.parameters.fields d'.parameters
  response : Option.Rel (fun p ps ↦ List.Forall₂ (ParameterImage ρ) p.fields ps)
    d.response? d'.response?
  attributes : AttributesImage d.info.attributes? d'.attributes

/-- The declarations nested in another, in their order. -/
structure NestedImage (d : Info) (enums : List EnumId) (constants : List ConstantId) : Prop where
  enums : List.Forall₂ (fun key id ↦ ρ.type key = .enum id)
    ((d.contained?.map Contained.enums).getD []) enums
  constants : List.Forall₂ (fun key id ↦ ρ.constant key = id)
    ((d.contained?.map Contained.constants).getD []) constants

/-! ## Declarations -/

structure StructImage (d : Graph.Struct) (d' : Module.Struct) : Prop where
  name : d'.name = d.info.shortName
  spec : d'.spec = d.info.fullName?.getD d.info.shortName
  owner : OwnerImage f m d.info.source? d'.owner
  attributes : AttributesImage d.info.attributes? d'.attributes
  fields : List.Forall₂ (StructFieldImage g ρ) d.fields d'.fields
  nested : NestedImage ρ d.info d'.enums d'.constants

structure UnionImage (d : Graph.Union) (d' : Module.Union) : Prop where
  name : d'.name = d.info.shortName
  spec : d'.spec = d.info.fullName?.getD d.info.shortName
  owner : OwnerImage f m d.info.source? d'.owner
  attributes : AttributesImage d.info.attributes? d'.attributes
  fields : List.Forall₂ (UnionFieldImage ρ) d.fields d'.fields

structure EnumImage (d : Graph.Enum) (d' : Module.Enum) : Prop where
  name : d'.name = d.info.shortName
  spec : d'.spec = d.info.fullName?.getD d.info.shortName
  owner : OwnerImage f m d.info.source? d'.owner
  attributes : AttributesImage d.info.attributes? d'.attributes
  parent : d'.parent? = d.info.container?.map ρ.type
  fields : List.Forall₂ (EnumeratorImage g ρ) d.values d'.fields

/-- An interface, which has no full name. Its methods come in the order of their numbers, which is
the order of the entries. -/
structure InterfaceImage (d : Graph.Interface) (d' : Module.Interface) : Prop where
  name : d'.name = d.info.shortName
  spec : d'.spec = d.info.shortName
  owner : OwnerImage f m d.info.source? d'.owner
  attributes : AttributesImage d.info.attributes? d'.attributes
  service : d'.service? = d.service?
  methods : List.Forall₂ (fun e d' ↦ MethodImage ρ e.2 d') d.methods.entries d'.methods
  nested : NestedImage ρ d.info d'.enums d'.constants

structure ConstantImage (d : Graph.Constant) (d' : Module.Constant) : Prop where
  name : d'.name = d.info.shortName
  owner : OwnerImage f m d.info.source? d'.owner
  kind : KindImage ρ d.type d'.kind
  value : ValueImage g ρ d.value d'.value
  parent : d'.parent? = d.info.container?.map ρ.type

/-- A member of an enum that is used as a value. It belongs to the enum that it names; where it is
nested, if it is said at all, is where the enum is. -/
structure MemberImage (d : Graph.Enumerator) (e : Graph.Enum) (d' : Module.Member) : Prop where
  name : d'.name = d.info.shortName
  enum : ρ.type d.enum = .enum d'.enum
  declared : g.types.find? d.enum = some (.enum e)
  owner : OwnerImage f m e.info.source? d'.owner
  moduleNamespace : d'.moduleNamespace = m.namespaceOf d'.owner
  parent : d'.parent? = none ∨ d'.parent? = e.info.container?.map ρ.type

/-- The declaration of a type, in the arena of its kind. -/
inductive TypeImage : TypeDecl → UserType → Prop where
  | struct {d : Graph.Struct} {d' : Module.Struct} {id : StructId}
    (found : m.struct? id = some d') (h : StructImage g f m ρ d d') :
    TypeImage (.struct d) (.struct id)
  | union {d : Graph.Union} {d' : Module.Union} {id : UnionId}
    (found : m.union? id = some d') (h : UnionImage f m ρ d d') : TypeImage (.union d) (.union id)
  | enum {d : Graph.Enum} {d' : Module.Enum} {id : EnumId}
    (found : m.enum? id = some d') (h : EnumImage g f m ρ d d') : TypeImage (.enum d) (.enum id)
  | interface {d : Graph.Interface} {d' : Module.Interface} {id : InterfaceId}
    (found : m.interface? id = some d') (h : InterfaceImage f m ρ d d') :
    TypeImage (.interface d) (.interface id)

/-- The declarations at the top level, in their order. -/
structure ListingImage (d : TopLevel) : Prop where
  constants : List.Forall₂ (fun key id ↦ ρ.constant key = id) d.constants m.constants
  enums : List.Forall₂ (fun key id ↦ ρ.type key = .enum id) d.enums m.enums
  structs : List.Forall₂ (fun key id ↦ ρ.type key = .struct id) d.structs m.structs
  unions : List.Forall₂ (fun key id ↦ ρ.type key = .union id) d.unions m.unions
  interfaces : List.Forall₂ (fun key id ↦ ρ.type key = .interface id) d.interfaces m.interfaces

/-! ## Modules -/

/-- **A module is a faithful picture of what a file reaches.** -/
structure Faithful : Prop where
  /-- The types that the file reaches and those of the module correspond one to one. -/
  types : Set.BijOn ρ.type {key | ∃ d, g.ReachesType f key d} {u | u ∈ m.userTypes}
  /-- So do the constants. -/
  constants : Set.BijOn ρ.constant {key | ∃ d, g.ReachesConstant f key d}
    {id | ∃ d', m.constant? id = some d'}
  /-- So do the enum members that are used as values. -/
  members : Set.BijOn ρ.member {key | ∃ d, g.ReachesMember f key d}
    {id | ∃ d', m.member? id = some d'}
  /-- Each type of the module is the image of the declaration that it corresponds to. -/
  type : ∀ key d, g.ReachesType f key d → TypeImage g f m ρ d (ρ.type key)
  constant : ∀ key d, g.ReachesConstant f key d →
    ∃ d', m.constant? (ρ.constant key) = some d' ∧ ConstantImage g f m ρ d d'
  member : ∀ key d, g.ReachesMember f key d →
    ∃ e d', m.member? (ρ.member key) = some d' ∧ MemberImage g f m ρ d e d'
  listing : ∀ source, g.files.find? f = some source →
    ListingImage m ρ (source.declared?.getD {})

end IdlLinker
