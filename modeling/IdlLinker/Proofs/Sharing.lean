import IdlLinker.Proofs.Ownership

/-!
# What two files share

Two files of one graph are linked apart from each other. Each walk numbers what it reaches in its
own order, and each file has imports of its own, so that a declaration which both files reach has
two nodes, with other positions and owners in them. The nodes *match*: they have the same names,
attributes and parts, the positions at the same place of both stand for one key, and both owners
denote the file in which the declaration stands.

Nothing is compared by running the two walks side by side. Each module is a picture of the graph,
and two pictures of one declaration match part by part. What the two files reach comes in at one
place only: whatever a shared declaration names is shared as well (`Link.Links.relates`).

## The relations

A `Correspondence` says which positions of one module belong to which of another, and the relations
on nodes take it as a parameter. `Naming.shared` is the one that is meant: positions that stand for
a key which both files reach. Enum members occur in it, as what a value may name; where a member is
nested can depend on the way by which a file came to it, and nothing is said about that.
-/

namespace IdlLinker

open IdlLinker.Graph

/-- Which positions of two modules belong together. -/
structure Correspondence where
  type : UserType → UserType → Prop
  constant : ConstantId → ConstantId → Prop
  member : MemberId → MemberId → Prop

section

variable (c : Correspondence)

/-! ## Parts of declarations -/

/-- Types of the same shape that name corresponding declarations. -/
inductive Ty.Matches : Ty → Ty → Prop where
  | primitive {p : Primitive} : Matches (.primitive p) (.primitive p)
  | string : Matches .string .string
  | handle {h : Handle} : Matches (.handle h) (.handle h)
  | array {t t' : Ty} {nullable : Bool} {length? : Option UInt32} (h : Matches t t') :
    Matches (.array t nullable length?) (.array t' nullable length?)
  | map {t t' u u' : Ty} {nullable nullable' : Bool} (ht : Matches t t') (hu : Matches u u') :
    Matches (.map t nullable u nullable') (.map t' nullable u' nullable')
  | user {u u' : UserType} (h : c.type u u') : Matches (.user u) (.user u')
  | request {id id' : InterfaceId} (h : c.type (.interface id) (.interface id')) :
    Matches (.request id) (.request id')

/-- Uses of types that match and may both be null or both not. -/
structure Kind.Matches (k k' : Kind) : Prop where
  ty : k.ty.Matches c k'.ty
  nullable : k.nullable = k'.nullable

/-- Equal values, or values that name corresponding declarations. -/
inductive Value.Matches : Value → Value → Prop where
  | literal {l : Literal} : Matches (.literal l) (.literal l)
  | builtin {b : Builtin} : Matches (.builtin b) (.builtin b)
  | constant {id id' : ConstantId} (h : c.constant id id') :
    Matches (.reference (.constant id)) (.reference (.constant id'))
  | member {id id' : MemberId} (h : c.member id id') :
    Matches (.reference (.member id)) (.reference (.member id'))

namespace Module

inductive FieldDefault.Matches : FieldDefault → FieldDefault → Prop where
  | value {v v' : Value} (h : v.Matches c v') : Matches (.value v) (.value v')
  | keyword : Matches .keyword .keyword

structure Field.Matches (d d' : Field) : Prop where
  name : d.name = d'.name
  kind : d.kind.Matches c d'.kind
  ordinal : d.ordinal? = d'.ordinal?
  default : Option.Rel (FieldDefault.Matches c) d.default? d'.default?
  attributes : d.attributes = d'.attributes

structure Enumerator.Matches (d d' : Enumerator) : Prop where
  name : d.name = d'.name
  attributes : d.attributes = d'.attributes
  number : d.number = d'.number
  value : Option.Rel (Value.Matches c) d.value? d'.value?

structure Parameter.Matches (d d' : Parameter) : Prop where
  name : d.name = d'.name
  kind : d.kind.Matches c d'.kind
  ordinal : d.ordinal? = d'.ordinal?
  attributes : d.attributes = d'.attributes

structure Method.Matches (d d' : Method) : Prop where
  name : d.name = d'.name
  ordinal : d.ordinal = d'.ordinal
  attributes : d.attributes = d'.attributes
  parameters : List.Forall₂ (Parameter.Matches c) d.parameters d'.parameters
  response : Option.Rel (List.Forall₂ (Parameter.Matches c)) d.response? d'.response?

/-- The file that an owner denotes in the module of a file. -/
def fileOf? (m : Module) (f : FileId) : Owner → Option FileId
  | .here => some f
  | .imported id => (m.transitiveImports.entry? id.index).map Prod.fst

/-- **Owners in the modules of two files that denote one file, and its namespace.** -/
structure OwnersMatch (f : FileId) (m : Module) (f' : FileId) (m' : Module) (o o' : Owner) :
    Prop where
  file : ∃ n, m.fileOf? f o = some n ∧ m'.fileOf? f' o' = some n
  moduleNamespace : m.namespaceOf o = m'.namespaceOf o'

variable (f : FileId) (m : Module) (f' : FileId) (m' : Module)

/-! ## Declarations -/

structure Struct.Matches (d d' : Struct) : Prop where
  name : d.name = d'.name
  spec : d.spec = d'.spec
  owner : OwnersMatch f m f' m' d.owner d'.owner
  attributes : d.attributes = d'.attributes
  fields : List.Forall₂ (Field.Matches c) d.fields d'.fields
  enums : List.Forall₂ (fun id id' ↦ c.type (.enum id) (.enum id')) d.enums d'.enums
  constants : List.Forall₂ c.constant d.constants d'.constants

structure Union.Matches (d d' : Union) : Prop where
  name : d.name = d'.name
  spec : d.spec = d'.spec
  owner : OwnersMatch f m f' m' d.owner d'.owner
  attributes : d.attributes = d'.attributes
  fields : List.Forall₂ (Field.Matches c) d.fields d'.fields

structure Enum.Matches (d d' : Enum) : Prop where
  name : d.name = d'.name
  spec : d.spec = d'.spec
  owner : OwnersMatch f m f' m' d.owner d'.owner
  attributes : d.attributes = d'.attributes
  parent : Option.Rel c.type d.parent? d'.parent?
  fields : List.Forall₂ (Enumerator.Matches c) d.fields d'.fields

structure Interface.Matches (d d' : Interface) : Prop where
  name : d.name = d'.name
  spec : d.spec = d'.spec
  owner : OwnersMatch f m f' m' d.owner d'.owner
  attributes : d.attributes = d'.attributes
  service : d.service? = d'.service?
  methods : List.Forall₂ (Method.Matches c) d.methods d'.methods
  enums : List.Forall₂ (fun id id' ↦ c.type (.enum id) (.enum id')) d.enums d'.enums
  constants : List.Forall₂ c.constant d.constants d'.constants

structure Constant.Matches (d d' : Constant) : Prop where
  name : d.name = d'.name
  owner : OwnersMatch f m f' m' d.owner d'.owner
  kind : d.kind.Matches c d'.kind
  value : d.value.Matches c d'.value
  parent : Option.Rel c.type d.parent? d'.parent?

/-- Types of two modules that are of one kind and whose nodes match. -/
inductive TypesMatch : UserType → UserType → Prop where
  | struct {id id' : StructId} {d d' : Struct} (found : m.struct? id = some d)
    (found' : m'.struct? id' = some d') (h : Struct.Matches c f m f' m' d d') :
    TypesMatch (.struct id) (.struct id')
  | union {id id' : UnionId} {d d' : Union} (found : m.union? id = some d)
    (found' : m'.union? id' = some d') (h : Union.Matches c f m f' m' d d') :
    TypesMatch (.union id) (.union id')
  | enum {id id' : EnumId} {d d' : Enum} (found : m.enum? id = some d)
    (found' : m'.enum? id' = some d') (h : Enum.Matches c f m f' m' d d') :
    TypesMatch (.enum id) (.enum id')
  | interface {id id' : InterfaceId} {d d' : Interface} (found : m.interface? id = some d)
    (found' : m'.interface? id' = some d') (h : Interface.Matches c f m f' m' d d') :
    TypesMatch (.interface id) (.interface id')

end Module

end

/-! ## Shared keys -/

/-- Positions of two modules that stand for a key which both files reach. -/
def Naming.shared (g : Graph) (f f' : FileId) (ρ ρ' : Naming) : Correspondence where
  type u u' := ∃ key d, g.ReachesType f key d ∧ g.ReachesType f' key d ∧
    ρ.type key = u ∧ ρ'.type key = u'
  constant id id' := ∃ key d, g.ReachesConstant f key d ∧ g.ReachesConstant f' key d ∧
    ρ.constant key = id ∧ ρ'.constant key = id'
  member id id' := ∃ key d, g.ReachesMember f key d ∧ g.ReachesMember f' key d ∧
    ρ.member key = id ∧ ρ'.member key = id'

/-- **Two modules agree on what both files reach.** -/
structure Agree (g : Graph) (f : FileId) (m : Module) (ρ : Naming) (f' : FileId) (m' : Module)
    (ρ' : Naming) : Prop where
  type : ∀ key d, g.ReachesType f key d → g.ReachesType f' key d →
    Module.TypesMatch (ρ.shared g f f' ρ') f m f' m' (ρ.type key) (ρ'.type key)
  constant : ∀ key d, g.ReachesConstant f key d → g.ReachesConstant f' key d →
    ∃ e e', m.constant? (ρ.constant key) = some e ∧ m'.constant? (ρ'.constant key) = some e' ∧
      Module.Constant.Matches (ρ.shared g f f' ρ') f m f' m' e e'

/-- What a use names corresponds in two modules. -/
def Correspondence.Relates (c : Correspondence) (g : Graph) (ρ ρ' : Naming) : Use → Prop
  | .type key _ => c.type (ρ.type key) (ρ'.type key)
  | .constant key => c.constant (ρ.constant key) (ρ'.constant key)
  | .value key =>
    (∀ d, g.values.find? key = some (.constant d) →
      c.constant (ρ.constant key) (ρ'.constant key)) ∧
    ∀ d, g.values.find? key = some (.enumerator d) → c.member (ρ.member key) (ρ'.member key)

/-! ## Two images of one part -/

theorem NumberImage.unique {least : Int} {i : Int32} {n? n?' : Option UInt32}
    (h : NumberImage least i n?) (h' : NumberImage least i n?') : n? = n?' := by
  ext n
  exact (h n).trans (h' n).symm

theorem AttributesImage.unique {attributes? : Option (List Attribute)} {t t' : Attributes}
    (h : AttributesImage attributes? t) (h' : AttributesImage attributes? t') : t = t' := by
  refine Table.ext_find? ?_ (h.keys.trans h'.keys.symm) fun k ↦ (h.texts k).trans (h'.texts k).symm
  rw [h.keys, ← (Link.attributesImage_attributesOf attributes?).keys]
  exact Table.nodup_keys_ofList _

theorem forall₂_of_images {α β γ : Type} {r : α → β → Prop} {r' : α → γ → Prop}
    {s : β → γ → Prop} {as : List α} {bs : List β} {cs : List γ} (h : List.Forall₂ r as bs)
    (h' : List.Forall₂ r' as cs) (hs : ∀ a ∈ as, ∀ {b c}, r a b → r' a c → s b c) :
    List.Forall₂ s bs cs := by
  induction h generalizing cs with
  | nil =>
    cases h'
    exact .nil
  | cons first _ ih =>
    cases h' with
    | cons first' rest' =>
      refine .cons (hs _ List.mem_cons_self first first') ?_
      exact ih rest' fun a ha ↦ hs a (List.mem_cons_of_mem _ ha)

theorem rel_of_images {α β γ : Type} {r : α → β → Prop} {r' : α → γ → Prop}
    {s : β → γ → Prop} {a? : Option α} {b? : Option β} {c? : Option γ} (h : Option.Rel r a? b?)
    (h' : Option.Rel r' a? c?) (hs : ∀ a, a? = some a → ∀ {b c}, r a b → r' a c → s b c) :
    Option.Rel s b? c? := by
  cases h with
  | none =>
    cases h'
    exact .none
  | some first =>
    cases h' with
    | some first' => exact .some (hs _ rfl first first')

theorem rel_map_map {α β γ : Type} {s : β → γ → Prop} {p : α → β} {q : α → γ} {a? : Option α}
    (hs : ∀ a, a? = some a → s (p a) (q a)) : Option.Rel s (a?.map p) (a?.map q) := by
  cases a? with
  | none => exact .none
  | some a => exact .some (hs a rfl)

section

variable {g : Graph} {f f' : FileId} {m m' : Module} {ρ ρ' : Naming} {c : Correspondence}

theorem KindImage.matches {t : TypeExpr} {k k' : Kind} (h : KindImage ρ t k)
    (h' : KindImage ρ' t k') (relates : ∀ {u}, t.Uses u → c.Relates g ρ ρ' u) :
    k.Matches c k' := by
  induction h generalizing k' with
  | primitive =>
    cases h'
    exact ⟨.primitive, rfl⟩
  | string =>
    cases h'
    exact ⟨.string, rfl⟩
  | handle =>
    cases h'
    exact ⟨.handle, rfl⟩
  | array _ length ih =>
    cases h' with
    | array element' length' =>
      obtain ⟨ty, nullable⟩ := ih element' fun hu ↦ relates (.element hu)
      rw [length.unique length', nullable]
      exact ⟨.array ty, rfl⟩
  | map _ _ ihk ihv =>
    cases h' with
    | map key' value' =>
      obtain ⟨kty, knullable⟩ := ihk key' fun hu ↦ relates (.key hu)
      obtain ⟨vty, vnullable⟩ := ihv value' fun hu ↦ relates (.value hu)
      rw [knullable, vnullable]
      exact ⟨.map kty vty, rfl⟩
  | user plain =>
    cases h' with
    | user _ => exact ⟨.user (relates (.plain plain)), rfl⟩
    | request asked _ => exact absurd (plain.symm.trans asked) Bool.false_ne_true
  | request asked hid =>
    cases h' with
    | user plain => exact absurd (plain.symm.trans asked) Bool.false_ne_true
    | request _ hid' =>
      have related : c.type (ρ.type _) (ρ'.type _) := relates (.request asked)
      rw [hid, hid'] at related
      exact ⟨.request related, rfl⟩

theorem ValueImage.matches {e : ValueExpr} {v v' : Value} (h : ValueImage g ρ e v)
    (h' : ValueImage g ρ' e v') (relates : ∀ {u}, e.Uses u → c.Relates g ρ ρ' u) :
    v.Matches c v' := by
  cases h with
  | literal =>
    cases h'
    exact .literal
  | builtin =>
    cases h'
    exact .builtin
  | constant found =>
    cases h' with
    | constant _ => exact .constant ((relates .reference).1 _ found)
    | member found' => cases found.symm.trans found'
  | member found =>
    cases h' with
    | constant found' => cases found.symm.trans found'
    | member _ => exact .member ((relates .reference).2 _ found)

theorem NestedImage.enums_match {d : Info} {enums enums' : List EnumId}
    {constants constants' : List ConstantId} (h : NestedImage ρ d enums constants)
    (h' : NestedImage ρ' d enums' constants') (relates : ∀ {u}, d.Nests u → c.Relates g ρ ρ' u) :
    List.Forall₂ (fun id id' ↦ c.type (.enum id) (.enum id')) enums enums' := by
  refine forall₂_of_images h.enums h'.enums fun key hk _ _ hid hid' ↦ ?_
  cases hd : d.contained? with
  | none =>
    rw [hd] at hk
    exact absurd hk List.not_mem_nil
  | some nested =>
    rw [hd] at hk
    have related : c.type (ρ.type key) (ρ'.type key) := relates (.enum hd hk)
    rwa [hid, hid'] at related

theorem NestedImage.constants_match {d : Info} {enums enums' : List EnumId}
    {constants constants' : List ConstantId} (h : NestedImage ρ d enums constants)
    (h' : NestedImage ρ' d enums' constants') (relates : ∀ {u}, d.Nests u → c.Relates g ρ ρ' u) :
    List.Forall₂ c.constant constants constants' := by
  refine forall₂_of_images h.constants h'.constants fun key hk _ _ hid hid' ↦ ?_
  cases hd : d.contained? with
  | none =>
    rw [hd] at hk
    exact absurd hk List.not_mem_nil
  | some nested =>
    rw [hd] at hk
    have related : c.constant (ρ.constant key) (ρ'.constant key) := relates (.constant hd hk)
    rwa [hid, hid'] at related

/-! ## Two images of one declaration -/

theorem ParameterImage.matches {d : StructField} {e e' : Module.Parameter}
    (h : ParameterImage ρ d e) (h' : ParameterImage ρ' d e')
    (relates : ∀ {u}, d.type.Uses u → c.Relates g ρ ρ' u) : Module.Parameter.Matches c e e' where
  name := h.name.trans h'.name.symm
  kind := h.kind.matches h'.kind relates
  ordinal := h.ordinal.unique h'.ordinal
  attributes := h.attributes.unique h'.attributes

theorem StructImage.matches {d : Graph.Struct} {e e' : Module.Struct}
    (h : StructImage g f m ρ d e) (h' : StructImage g f' m' ρ' d e')
    (owner : Module.OwnersMatch f m f' m' e.owner e'.owner)
    (relates : ∀ {u}, (TypeDecl.struct d).Uses u → c.Relates g ρ ρ' u) :
    Module.Struct.Matches c f m f' m' e e' where
  name := h.name.trans h'.name.symm
  spec := h.spec.trans h'.spec.symm
  owner := owner
  attributes := h.attributes.unique h'.attributes
  fields := forall₂_of_images h.fields h'.fields fun _ hd _ _ i i' ↦
    { name := i.name.trans i'.name.symm
      kind := i.kind.matches i'.kind fun hu ↦ relates (.structField hd hu)
      ordinal := i.ordinal.unique i'.ordinal
      default := rel_of_images i.default i'.default fun _ hv _ _ j j' ↦ by
        cases j with
        | keyword =>
          cases j'
          exact .keyword
        | value k =>
          cases j' with
          | value k' => exact .value (k.matches k' fun hu ↦ relates (.structDefault hd hv hu))
      attributes := i.attributes.unique i'.attributes }
  enums := h.nested.enums_match h'.nested fun hu ↦ relates (.structNested hu)
  constants := h.nested.constants_match h'.nested fun hu ↦ relates (.structNested hu)

theorem UnionImage.matches {d : Graph.Union} {e e' : Module.Union}
    (h : UnionImage f m ρ d e) (h' : UnionImage f' m' ρ' d e')
    (owner : Module.OwnersMatch f m f' m' e.owner e'.owner)
    (relates : ∀ {u}, (TypeDecl.union d).Uses u → c.Relates g ρ ρ' u) :
    Module.Union.Matches c f m f' m' e e' where
  name := h.name.trans h'.name.symm
  spec := h.spec.trans h'.spec.symm
  owner := owner
  attributes := h.attributes.unique h'.attributes
  fields := forall₂_of_images h.fields h'.fields fun _ hd _ _ i i' ↦
    { name := i.name.trans i'.name.symm
      kind := i.kind.matches i'.kind fun hu ↦ relates (.unionField hd hu)
      ordinal := i.ordinal.unique i'.ordinal
      default := by
        rw [i.default, i'.default]
        exact .none
      attributes := i.attributes.unique i'.attributes }

theorem EnumImage.matches {d : Graph.Enum} {e e' : Module.Enum}
    (h : EnumImage g f m ρ d e) (h' : EnumImage g f' m' ρ' d e')
    (owner : Module.OwnersMatch f m f' m' e.owner e'.owner)
    (relates : ∀ {u}, (TypeDecl.enum d).Uses u → c.Relates g ρ ρ' u) :
    Module.Enum.Matches c f m f' m' e e' where
  name := h.name.trans h'.name.symm
  spec := h.spec.trans h'.spec.symm
  owner := owner
  attributes := h.attributes.unique h'.attributes
  parent := by
    rw [h.parent, h'.parent]
    exact rel_map_map fun _ hc ↦ relates (.enumContainer hc)
  fields := forall₂_of_images h.fields h'.fields fun _ he _ _ i i' ↦
    { name := i.name.trans i'.name.symm
      attributes := i.attributes.unique i'.attributes
      number := i.number.trans i'.number.symm
      value := rel_of_images i.value i'.value fun _ hv _ _ j j' ↦
        j.matches j' fun hu ↦ relates (.enumInitializer he hv hu) }

theorem InterfaceImage.matches {d : Graph.Interface} {e e' : Module.Interface}
    (h : InterfaceImage f m ρ d e) (h' : InterfaceImage f' m' ρ' d e')
    (owner : Module.OwnersMatch f m f' m' e.owner e'.owner)
    (relates : ∀ {u}, (TypeDecl.interface d).Uses u → c.Relates g ρ ρ' u) :
    Module.Interface.Matches c f m f' m' e e' where
  name := h.name.trans h'.name.symm
  spec := h.spec.trans h'.spec.symm
  owner := owner
  attributes := h.attributes.unique h'.attributes
  service := h.service.trans h'.service.symm
  methods := forall₂_of_images h.methods h'.methods fun _ hm _ _ i i' ↦
    { name := i.name.trans i'.name.symm
      ordinal := i.ordinal.trans i'.ordinal.symm
      attributes := i.attributes.unique i'.attributes
      parameters := forall₂_of_images i.parameters i'.parameters fun _ hd _ _ j j' ↦
        j.matches j' fun hu ↦ relates (.parameter hm hd hu)
      response := rel_of_images i.response i'.response fun _ hp _ _ j j' ↦
        forall₂_of_images j j' fun _ hd _ _ k k' ↦
          k.matches k' fun hu ↦ relates (.response hm hp hd hu) }
  enums := h.nested.enums_match h'.nested fun hu ↦ relates (.interfaceNested hu)
  constants := h.nested.constants_match h'.nested fun hu ↦ relates (.interfaceNested hu)

theorem ConstantImage.matches {d : Graph.Constant} {e e' : Module.Constant}
    (h : ConstantImage g f m ρ d e) (h' : ConstantImage g f' m' ρ' d e')
    (owner : Module.OwnersMatch f m f' m' e.owner e'.owner)
    (relates : ∀ {u}, (ValueDecl.constant d).Uses u → c.Relates g ρ ρ' u) :
    Module.Constant.Matches c f m f' m' e e' where
  name := h.name.trans h'.name.symm
  owner := owner
  kind := h.kind.matches h'.kind fun hu ↦ relates (.constantType hu)
  value := h.value.matches h'.value fun hu ↦ relates (.constantValue hu)
  parent := by
    rw [h.parent, h'.parent]
    exact rel_map_map fun _ hc ↦ relates (.constantContainer hc)

/-! ## Owners -/

theorem Owner.StandsFor.fileOf? {n : FileId} {o : Owner} (h : o.StandsFor g f m n) :
    m.fileOf? f o = some n := by
  cases o with
  | here => exact congrArg some (h.here.mp rfl).symm
  | imported id => exact h.imported id rfl

theorem Owner.StandsFor.matches {n : FileId} {o o' : Owner} (h : o.StandsFor g f m n)
    (h' : o'.StandsFor g f' m' n) : Module.OwnersMatch f m f' m' o o' where
  file := ⟨n, h.fileOf?, h'.fileOf?⟩
  moduleNamespace := by
    obtain ⟨file, found, named⟩ := h.moduleNamespace
    obtain ⟨file', found', named'⟩ := h'.moduleNamespace
    obtain rfl := Option.some.inj (found.symm.trans found')
    exact named.trans named'.symm

end

/-! ## Two links -/

namespace Link

variable {g : Graph} {f f' : FileId} {source source' : SourceFile} {v v' : Visits}
  {imports imports' : Table FileId (Module.Import Module)}

/-- **What a shared declaration names is shared.** A walk of one file has come to it and found a
declaration there, which is the one that the other file reaches. -/
theorem Links.relates (h : Links g f source imports v) (ρ ρ' : Naming) {u : Use}
    (reached : g.Reaches f u) (reached' : g.Reaches f' u) :
    (ρ.shared g f f' ρ').Relates g ρ ρ' u := by
  cases u with
  | type key expected? =>
    cases h.covers reached with
    | type visited _ =>
      have found := (h.reached.types visited).2
      exact ⟨key, _, ⟨⟨expected?, reached⟩, found⟩, ⟨⟨expected?, reached'⟩, found⟩, rfl, rfl⟩
  | constant key =>
    cases h.covers reached with
    | constant visited =>
      have found := (h.reached.constants visited).2
      exact ⟨key, _, ⟨Or.inl reached, found⟩, ⟨Or.inl reached', found⟩, rfl, rfl⟩
  | value key =>
    refine ⟨fun d found ↦ ?_, fun d found ↦ ?_⟩
    · exact ⟨key, d, ⟨Or.inr reached, found⟩, ⟨Or.inr reached', found⟩, rfl, rfl⟩
    · exact ⟨key, d, ⟨reached, found⟩, ⟨reached', found⟩, rfl, rfl⟩

variable (h : Links g f source imports v) (h' : Links g f' source' imports' v')
include h h'

theorem Links.ownersMatch {source? : Option SourceInfo} {o o' : Owner}
    (image : OwnerImage f h.module source? o) (image' : OwnerImage f' h'.module source? o') :
    Module.OwnersMatch f h.module f' h'.module o o' := by
  obtain ⟨place, there, stands⟩ := h.standsFor image
  obtain ⟨place', there', stands'⟩ := h'.standsFor image'
  obtain rfl := Option.some.inj (there.symm.trans there')
  exact stands.matches stands'

/-- **Two pictures of one graph agree on what both show.** -/
theorem Links.agree {ρ ρ' : Naming} (faithful : Faithful g f h.module ρ)
    (faithful' : Faithful g f' h'.module ρ') : Agree g f h.module ρ f' h'.module ρ' where
  type key d reached reached' := by
    have relates : ∀ {u}, d.Uses u → (ρ.shared g f f' ρ').Relates g ρ ρ' u := fun hu ↦
      h.relates ρ ρ' (reached.uses hu) (reached'.uses hu)
    generalize hu : ρ.type key = u
    generalize hu' : ρ'.type key = u'
    have image := faithful.type key d reached
    have image' := faithful'.type key d reached'
    rw [hu] at image
    rw [hu'] at image'
    cases image with
    | struct found i =>
      cases image' with
      | struct found' i' =>
        exact .struct found found' (i.matches i' (h.ownersMatch h' i.owner i'.owner) relates)
    | union found i =>
      cases image' with
      | union found' i' =>
        exact .union found found' (i.matches i' (h.ownersMatch h' i.owner i'.owner) relates)
    | enum found i =>
      cases image' with
      | enum found' i' =>
        exact .enum found found' (i.matches i' (h.ownersMatch h' i.owner i'.owner) relates)
    | interface found i =>
      cases image' with
      | interface found' i' =>
        exact .interface found found' (i.matches i' (h.ownersMatch h' i.owner i'.owner) relates)
  constant key d reached reached' := by
    obtain ⟨e, found, i⟩ := faithful.constant key d reached
    obtain ⟨e', found', i'⟩ := faithful'.constant key d reached'
    have relates : ∀ {u}, (ValueDecl.constant d).Uses u → (ρ.shared g f f' ρ').Relates g ρ ρ' u :=
      fun hu ↦ h.relates ρ ρ' (reached.uses hu) (reached'.uses hu)
    exact ⟨e, e', found, found', i.matches i' (h.ownersMatch h' i.owner i'.owner) relates⟩

end Link

open Link

/-- **Two files agree on the declarations they share.** Both modules are faithful pictures of what
their files reach, and whatever the keys are taken to stand for in such pictures, the nodes of a key
that both files reach match. -/
theorem agree_on_shared {g : Graph} {f f' : FileId} {m m' : Module} (h : g.module f = .ok m)
    (h' : g.module f' = .ok m') :
    (∃ ρ, Faithful g f m ρ) ∧ (∃ ρ', Faithful g f' m' ρ') ∧
      ∀ ρ ρ', Faithful g f m ρ → Faithful g f' m' ρ' → Agree g f m ρ f' m' ρ' := by
  obtain ⟨source, imports, v, links, rfl⟩ := module_eq_ok_iff.mp h
  obtain ⟨source', imports', v', links', rfl⟩ := module_eq_ok_iff.mp h'
  refine ⟨⟨links.naming, links.faithful⟩, ⟨links'.naming, links'.faithful⟩, ?_⟩
  intro ρ ρ' faithful faithful'
  exact links.agree links' faithful faithful'

/-- Two files share a struct and its enum. The struct is the first one of the file that declares it,
and the second one of the file that imports it. -/
def Graph.joint : Graph where
  files := ⟨[
    ("a",
      { fileName := "a", moduleNamespace := "p",
        declared? := some { enums := ["a.E"], structs := ["a.S"] } }),
    ("b",
      { fileName := "b", moduleNamespace := "q", imports? := some ["a"],
        declared? := some { structs := ["b.T"] } })]⟩
  types := ⟨[
    ("a.S", .struct
      { info := { source? := some { fileName := "a" } }
        fields := [
          { type := .reference { key := "a.E" },
            default? := some (.value (.reference { key := "a.E.A" })) },
          { type := .array false 2 (.reference { nullable := true, key := "a.S" }) }] }),
    ("a.E", .enum
      { info := { source? := some { fileName := "a" } }, values := [{ enum := "a.E" }] }),
    ("b.T", .struct
      { info := { source? := some { fileName := "b" } }
        fields := [
          { type := .reference { key := "a.E" } }, { type := .reference { key := "a.S" } }] })]⟩
  values := ⟨[("a.E.A", .enumerator { enum := "a.E" })]⟩

theorem agree_on_shared_joint :
    ∃ m m', Graph.joint.module "a" = .ok m ∧ Graph.joint.module "b" = .ok m' ∧
      (∃ ρ, Faithful Graph.joint "a" m ρ) ∧ (∃ ρ', Faithful Graph.joint "b" m' ρ') ∧
        ∀ ρ ρ', Faithful Graph.joint "a" m ρ → Faithful Graph.joint "b" m' ρ' →
          Agree Graph.joint "a" m ρ "b" m' ρ' := by
  obtain ⟨m, linked⟩ : ∃ m, Graph.joint.module "a" = .ok m := exists_module_of_isSome (by cbv)
  obtain ⟨m', linked'⟩ : ∃ m', Graph.joint.module "b" = .ok m' := exists_module_of_isSome (by cbv)
  exact ⟨m, m', linked, linked', agree_on_shared linked linked'⟩

end IdlLinker
