import IdlLinker.Link.Error
import IdlLinker.Link.Imports
import IdlLinker.Proofs.Closure

/-!
# What a file reaches

A file lists some declarations by key, these name others, and so on. This module says what a
declaration names, place by place, and which declarations a file reaches through such places. It
says so without regard to how a link goes about it: there is no order here, nothing is visited, and
a key that leads nowhere is reached like any other.

A *use* is a key at a place, together with the kind of declaration that the place requires there.
Most places require no kind: a field may be of any declared type, and a value may stand for a
constant or an enum member. A request is for an interface, what an enum member belongs to is an
enum, and each list of keys is a list of declarations of one kind.

## Wrong kinds

A type of the wrong kind is reached and so is what it names in turn. An enum member where a constant
has to be is reached, and leads no further.
-/

namespace IdlLinker

open IdlLinker.Graph

/-- A key at a place, with the kind of declaration that the place requires, if it requires one. -/
inductive Use where
  | type (key : TypeKey) (expected? : Option TypeTag)
  /-- A constant has to be there. -/
  | constant (key : ValueKey)
  /-- A constant or an enum member has to be there. -/
  | value (key : ValueKey)

/-- The literals that stand for no number: a value has to name a built-in constant instead. -/
inductive Literal.NonFinite : Literal → Prop where
  | float {x : Decimal.Binary32} (h : x.isFinite = false) : NonFinite (.float x)
  | double {x : Decimal.Binary64} (h : x.isFinite = false) : NonFinite (.double x)

theorem Literal.isRepresentable_eq_false_iff {l : Literal} :
    l.isRepresentable = false ↔ l.NonFinite := by
  constructor
  · intro h
    cases l with
    | float x => exact .float h
    | double x => exact .double h
    | _ => cases h
  · rintro (h | h) <;> exact h

theorem Literal.isRepresentable_iff {l : Literal} : l.isRepresentable = true ↔ ¬l.NonFinite := by
  rw [← isRepresentable_eq_false_iff, Bool.not_eq_false]

namespace Graph

/-! ## What the parts of a declaration name -/

/-- The use of a type names a declaration. -/
inductive TypeExpr.Uses : TypeExpr → Use → Prop where
  | element {nullable : Bool} {length : Int32} {element : TypeExpr} {u : Use}
    (h : element.Uses u) : Uses (.array nullable length element) u
  | key {nullable : Bool} {key value : TypeExpr} {u : Use} (h : key.Uses u) :
    Uses (.map nullable key value) u
  | value {nullable : Bool} {key value : TypeExpr} {u : Use} (h : value.Uses u) :
    Uses (.map nullable key value) u
  | plain {r : TypeReference} (h : r.isRequest = false) : Uses (.reference r) (.type r.key none)
  | request {r : TypeReference} (h : r.isRequest = true) :
    Uses (.reference r) (.type r.key (some .interface))

/-- A value names a declaration. -/
inductive ValueExpr.Uses : ValueExpr → Use → Prop where
  | reference {r : ValueReference} : Uses (.reference r) (.value r.key)

/-- A declaration is listed as nested in another. -/
inductive Info.Nests : Info → Use → Prop where
  | enum {d : Info} {c : Contained} {key : TypeKey} (h : d.contained? = some c)
    (hk : key ∈ c.enums) : Nests d (.type key (some .enum))
  | constant {d : Info} {c : Contained} {key : ValueKey} (h : d.contained? = some c)
    (hk : key ∈ c.constants) : Nests d (.constant key)

/-! ## What declarations name -/

/-- The declaration of a type names another declaration. -/
inductive TypeDecl.Uses : TypeDecl → Use → Prop where
  | structField {d : Struct} {f : StructField} {u : Use} (hf : f ∈ d.fields)
    (h : f.type.Uses u) : Uses (.struct d) u
  | structDefault {d : Struct} {f : StructField} {v : ValueExpr} {u : Use} (hf : f ∈ d.fields)
    (hv : f.default? = some (.value v)) (h : v.Uses u) : Uses (.struct d) u
  | structNested {d : Struct} {u : Use} (h : d.info.Nests u) : Uses (.struct d) u
  | unionField {d : Union} {f : UnionField} {u : Use} (hf : f ∈ d.fields) (h : f.type.Uses u) :
    Uses (.union d) u
  | enumContainer {d : Enum} {key : TypeKey} (h : d.info.container? = some key) :
    Uses (.enum d) (.type key none)
  | enumInitializer {d : Enum} {e : Enumerator} {v : ValueExpr} {u : Use} (he : e ∈ d.values)
    (hv : e.initializer? = some v) (h : v.Uses u) : Uses (.enum d) u
  | parameter {d : Interface} {m : UInt32 × Method} {f : StructField} {u : Use}
    (hm : m ∈ d.methods.entries) (hf : f ∈ m.2.parameters.fields) (h : f.type.Uses u) :
    Uses (.interface d) u
  | response {d : Interface} {m : UInt32 × Method} {p : Struct} {f : StructField} {u : Use}
    (hm : m ∈ d.methods.entries) (hp : m.2.response? = some p) (hf : f ∈ p.fields)
    (h : f.type.Uses u) : Uses (.interface d) u
  | interfaceNested {d : Interface} {u : Use} (h : d.info.Nests u) : Uses (.interface d) u

/-- The declaration of a value names another declaration. -/
inductive ValueDecl.Uses : ValueDecl → Use → Prop where
  | constantType {d : Constant} {u : Use} (h : d.type.Uses u) : Uses (.constant d) u
  | constantValue {d : Constant} {u : Use} (h : d.value.Uses u) : Uses (.constant d) u
  | constantContainer {d : Constant} {key : TypeKey} (h : d.info.container? = some key) :
    Uses (.constant d) (.type key none)
  | memberEnum {d : Enumerator} : Uses (.enumerator d) (.type d.enum (some .enum))

/-- A file lists a declaration. -/
inductive TopLevel.Uses (d : TopLevel) : Use → Prop where
  | constant {key : ValueKey} (h : key ∈ d.constants) : Uses d (.constant key)
  | interface {key : TypeKey} (h : key ∈ d.interfaces) : Uses d (.type key (some .interface))
  | struct {key : TypeKey} (h : key ∈ d.structs) : Uses d (.type key (some .struct))
  | union {key : TypeKey} (h : key ∈ d.unions) : Uses d (.type key (some .union))
  | enum {key : TypeKey} (h : key ∈ d.enums) : Uses d (.type key (some .enum))

/-! ## What declarations hold -/

/-- The declaration of a type holds a literal as a value. -/
inductive TypeDecl.Holds : TypeDecl → Literal → Prop where
  | structDefault {d : Struct} {f : StructField} {l : Literal} (hf : f ∈ d.fields)
    (hl : f.default? = some (.value (.literal l))) : Holds (.struct d) l
  | enumInitializer {d : Enum} {e : Enumerator} {l : Literal} (he : e ∈ d.values)
    (hl : e.initializer? = some (.literal l)) : Holds (.enum d) l

end Graph

/-! ## What a file reaches -/

namespace Graph

variable (g : Graph) (f : FileId)

/-- **A file reaches the use of a declaration.** -/
inductive Reaches : Use → Prop where
  | declared {source : SourceFile} {d : TopLevel} {u : Use} (hf : g.files.find? f = some source)
    (hd : source.declared? = some d) (h : d.Uses u) : Reaches u
  | type {key : TypeKey} {expected? : Option TypeTag} {d : TypeDecl} {u : Use}
    (reached : Reaches (.type key expected?)) (found : g.types.find? key = some d)
    (h : d.Uses u) : Reaches u
  | constant {key : ValueKey} {d : Constant} {u : Use} (reached : Reaches (.constant key))
    (found : g.values.find? key = some (.constant d)) (h : (ValueDecl.constant d).Uses u) :
    Reaches u
  | value {key : ValueKey} {d : ValueDecl} {u : Use} (reached : Reaches (.value key))
    (found : g.values.find? key = some d) (h : d.Uses u) : Reaches u

/-- A file reaches the declaration of a type. -/
def ReachesType (key : TypeKey) (d : TypeDecl) : Prop :=
  (∃ expected?, g.Reaches f (.type key expected?)) ∧ g.types.find? key = some d

/-- A file reaches the declaration of a constant. -/
def ReachesConstant (key : ValueKey) (d : Constant) : Prop :=
  (g.Reaches f (.constant key) ∨ g.Reaches f (.value key)) ∧
    g.values.find? key = some (.constant d)

/-- A file reaches the declaration of an enum member, where one may stand. -/
def ReachesMember (key : ValueKey) (d : Enumerator) : Prop :=
  g.Reaches f (.value key) ∧ g.values.find? key = some (.enumerator d)

/-- A file reaches a declaration that has to stand in a known file. -/
inductive ReachesInfo : Info → Prop where
  | type {key : TypeKey} {d : TypeDecl} (h : g.ReachesType f key d) : ReachesInfo d.info
  | constant {key : ValueKey} {d : Constant} (h : g.ReachesConstant f key d) : ReachesInfo d.info

/-- A file reaches a literal that stands as a value. -/
inductive ReachesLiteral : Literal → Prop where
  | type {key : TypeKey} {d : TypeDecl} {l : Literal} (h : g.ReachesType f key d)
    (hl : d.Holds l) : ReachesLiteral l
  | constant {key : ValueKey} {d : Constant} {l : Literal} (h : g.ReachesConstant f key d)
    (hl : d.value = .literal l) : ReachesLiteral l

variable {g f} {u : Use}

theorem reaches_of_listed {source : SourceFile} (hf : g.files.find? f = some source)
    (hu : (source.declared?.getD {}).Uses u) : g.Reaches f u := by
  cases hd : source.declared? with
  | none =>
    rw [hd] at hu
    rcases hu with hk | hk | hk | hk | hk <;> exact absurd hk List.not_mem_nil
  | some d =>
    rw [hd] at hu
    exact .declared hf hd hu

theorem ReachesType.uses {key : TypeKey} {d : TypeDecl} (h : g.ReachesType f key d)
    (hu : d.Uses u) : g.Reaches f u := by
  obtain ⟨⟨_, reached⟩, found⟩ := h
  exact .type reached found hu

theorem ReachesConstant.uses {key : ValueKey} {d : Constant} (h : g.ReachesConstant f key d)
    (hu : (ValueDecl.constant d).Uses u) : g.Reaches f u := by
  obtain ⟨reached | reached, found⟩ := h
  · exact .constant reached found hu
  · exact .value reached found hu

theorem ReachesMember.uses {key : ValueKey} {d : Enumerator} (h : g.ReachesMember f key d)
    (hu : (ValueDecl.enumerator d).Uses u) : g.Reaches f u :=
  .value h.1 h.2 hu

end Graph

end IdlLinker
