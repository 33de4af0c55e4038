import IdlLinker.Proofs.Faithful

/-!
# In what declarations are nested

Enums and constants can be nested in structs and in interfaces, since only these list what is nested
in them. A module says beside an enum or a constant where it is nested, and beside an enum member
that is used as a value where its enum is.

What stands there is whatever the container key of the declaration leads to. A list of nested
declarations is checked, and so is the enum that a member names; a container is not. So the parents
in a module are structs and interfaces exactly when the containers in the graph are, as far as the
file reaches them (`parentsFit_iff`), and a declaration that is nested in a union, or in itself, is
linked like any other.
-/

namespace IdlLinker

open IdlLinker.Graph IdlLinker.Link

/-- The kinds of types in which enums and constants can be nested. -/
inductive TypeTag.IsContainer : TypeTag → Prop where
  | struct : IsContainer .struct
  | interface : IsContainer .interface

/-- Every parent in a module is a struct or an interface. -/
structure Module.ParentsFit (m : Module) : Prop where
  enums : ∀ id enum u, m.enum? id = some enum → enum.parent? = some u → u.tag.IsContainer
  constants : ∀ id constant u, m.constant? id = some constant → constant.parent? = some u →
    u.tag.IsContainer
  members : ∀ id member u, m.member? id = some member → member.parent? = some u →
    u.tag.IsContainer

namespace Graph

variable (g : Graph) (f : FileId)

/-- A file reaches an enum or a constant that is nested in the type under a key. -/
inductive ReachesContainer : TypeKey → Prop where
  | enum {key container : TypeKey} {d : Enum} (h : g.ReachesType f key (.enum d))
    (hc : d.info.container? = some container) : ReachesContainer container
  | constant {key : ValueKey} {container : TypeKey} {d : Constant}
    (h : g.ReachesConstant f key d) (hc : d.info.container? = some container) :
    ReachesContainer container

/-- Every container that a file reaches in this way is a struct or an interface. -/
def ContainersFit : Prop :=
  ∀ key d, g.ReachesContainer f key → g.types.find? key = some d → d.tag.IsContainer

variable {g f}

theorem ReachesContainer.reaches {key : TypeKey} (h : g.ReachesContainer f key) :
    g.Reaches f (.type key none) := by
  cases h with
  | enum reached nested => exact reached.uses (.enumContainer nested)
  | constant reached nested => exact reached.uses (.constantContainer nested)

end Graph

theorem TypeImage.tag_eq {g : Graph} {f : FileId} {m : Module} {ρ : Naming} {d : TypeDecl}
    {u : UserType} (image : TypeImage g f m ρ d u) : u.tag = d.tag := by
  cases image <;> rfl

theorem exists_of_parent {g : Graph} {f : FileId} {ρ : Naming} {container? : Option TypeKey}
    {u : UserType} (nested : container?.map ρ.type = some u)
    (reached : ∀ key, container? = some key → g.ReachesContainer f key) :
    ∃ key, g.ReachesContainer f key ∧ ρ.type key = u := by
  obtain ⟨key, container, stands⟩ := Option.map_eq_some_iff.mp nested
  exact ⟨key, reached key container, stands⟩

namespace Faithful

variable {g : Graph} {f : FileId} {m : Module} {ρ : Naming} (h : Faithful g f m ρ)
include h

/-- A container stands for a type of the kind that the graph has under its key. -/
theorem tag_container {key : TypeKey} {d : TypeDecl} (reached : g.ReachesContainer f key)
    (found : g.types.find? key = some d) : (ρ.type key).tag = d.tag :=
  (h.type key d ⟨⟨none, reached.reaches⟩, found⟩).tag_eq

/-! ### Parents stand for containers -/

theorem exists_of_enum_parent {id : EnumId} {enum : Module.Enum} {u : UserType}
    (found : m.enum? id = some enum) (nested : enum.parent? = some u) :
    ∃ key, g.ReachesContainer f key ∧ ρ.type key = u := by
  obtain ⟨key, d, -, reached, image⟩ := h.exists_enum found
  exact exists_of_parent (image.parent ▸ nested) fun _ container ↦ .enum reached container

theorem exists_of_constant_parent {id : ConstantId} {constant : Module.Constant} {u : UserType}
    (found : m.constant? id = some constant) (nested : constant.parent? = some u) :
    ∃ key, g.ReachesContainer f key ∧ ρ.type key = u := by
  obtain ⟨key, d, -, reached, image⟩ := h.exists_constant found
  exact exists_of_parent (image.parent ▸ nested) fun _ container ↦ .constant reached container

theorem exists_of_member_parent {id : MemberId} {member : Module.Member} {u : UserType}
    (found : m.member? id = some member) (nested : member.parent? = some u) :
    ∃ key, g.ReachesContainer f key ∧ ρ.type key = u := by
  obtain ⟨key, ⟨d, reached⟩, rfl⟩ := h.members.surjOn ⟨member, found⟩
  obtain ⟨e, member', found', image⟩ := h.member key d reached
  obtain rfl := Option.some.inj (found.symm.trans found')
  have enum : g.ReachesType f d.enum (.enum e) := ⟨⟨_, reached.uses .memberEnum⟩, image.declared⟩
  rcases image.parent with orphan | same
  · rw [orphan] at nested
    cases nested
  · exact exists_of_parent (same ▸ nested) fun _ container ↦ .enum enum container

/-! ### Both fit -/

/-- The containers fit when the parents do, since each container is the parent of what is nested in
it. -/
theorem containersFit (fit : m.ParentsFit) : g.ContainersFit f := by
  intro container c reached found
  rw [← h.tag_container reached found]
  cases reached with
  | @enum key _ d reached nested =>
    have image := h.type key (.enum d) reached
    generalize ρ.type key = u at image
    cases image with
    | enum found image =>
      refine fit.enums _ _ _ found ?_
      rw [image.parent, nested, Option.map_some]
  | @constant key _ d reached nested =>
    obtain ⟨d', found, image⟩ := h.constant key d reached
    refine fit.constants _ _ _ found ?_
    rw [image.parent, nested, Option.map_some]

/-- The parents fit when the containers do, since each of them is what a container stands for. -/
theorem parentsFit (present : ∀ key, g.ReachesContainer f key → ∃ d, g.types.find? key = some d)
    (fit : g.ContainersFit f) : m.ParentsFit := by
  have fits : ∀ {u}, (∃ key, g.ReachesContainer f key ∧ ρ.type key = u) → u.tag.IsContainer := by
    rintro _ ⟨key, reached, rfl⟩
    obtain ⟨d, found⟩ := present key reached
    rw [h.tag_container reached found]
    exact fit key d reached found
  exact
    { enums := fun _ _ _ found nested ↦ fits (h.exists_of_enum_parent found nested)
      constants := fun _ _ _ found nested ↦ fits (h.exists_of_constant_parent found nested)
      members := fun _ _ _ found nested ↦ fits (h.exists_of_member_parent found nested) }

end Faithful

/-- **The parents in a module are structs and interfaces exactly when the containers are.** Each
container that the file reaches leads to a type, and stands for one of the same kind in the module;
the parents are what the containers stand for, whatever their kind is. -/
theorem parentsFit_iff {g : Graph} {f : FileId} {m : Module} (h : g.module f = .ok m) :
    ∃ ρ, Faithful g f m ρ ∧
      (∀ key, g.ReachesContainer f key →
        ∃ d, g.types.find? key = some d ∧ (ρ.type key).tag = d.tag) ∧
      (m.ParentsFit ↔ g.ContainersFit f) := by
  obtain ⟨source, imports, v, links, rfl⟩ := module_eq_ok_iff.mp h
  have faithful := links.faithful
  have present : ∀ key, g.ReachesContainer f key → ∃ d, g.types.find? key = some d := by
    intro key reached
    obtain ⟨d, found, -⟩ := links.wellFormed.types key none reached.reaches
    exact ⟨d, found⟩
  refine ⟨links.naming, faithful, fun key reached ↦ ?_, ?_⟩
  · obtain ⟨d, found⟩ := present key reached
    exact ⟨d, found, faithful.tag_container reached found⟩
  · exact ⟨faithful.containersFit, faithful.parentsFit present⟩

/-- An enum that is nested in a struct has its parent from there. -/
theorem parentsFit_knot :
    ∃ m, Graph.knot.module "a" = .ok m ∧ ∃ ρ, Faithful Graph.knot "a" m ρ ∧
      (∀ key, Graph.knot.ReachesContainer "a" key →
        ∃ d, Graph.knot.types.find? key = some d ∧ (ρ.type key).tag = d.tag) ∧
      (m.ParentsFit ↔ Graph.knot.ContainersFit "a") := by
  obtain ⟨m, linked⟩ := exists_module_of_isSome (g := Graph.knot) (f := "a") (by cbv)
  exact ⟨m, linked, parentsFit_iff linked⟩

/-- A constant that is nested in a union. -/
def Graph.misnested : Graph where
  files := ⟨[("a", { fileName := "a", declared? := some { constants := ["a.U.K"] } })]⟩
  types := ⟨[("a.U", .union { info := { source? := some { fileName := "a" } } })]⟩
  values := ⟨[
    ("a.U.K", .constant
      { info := { source? := some { fileName := "a" }, container? := some "a.U" },
        type := .primitive .bool, value := .literal (.bool true) })]⟩

/-- The constant is linked, and its parent is the union. -/
theorem not_parentsFit_misnested :
    ∃ m constant, Graph.misnested.module "a" = .ok m ∧ m.constant? ⟨0⟩ = some constant ∧
      constant.parent? = some (.union ⟨0⟩) ∧ ¬m.ParentsFit := by
  have computed : ((Graph.misnested.module "a").toOption.bind fun m ↦
      (m.constant? ⟨0⟩).bind Module.Constant.parent?) = some (.union ⟨0⟩) := by cbv
  obtain ⟨m, linked⟩ := exists_module_of_isSome (g := Graph.misnested) (f := "a") (by cbv)
  rw [linked, Except.toOption, Option.bind_some] at computed
  obtain ⟨constant, found, parent⟩ := Option.bind_eq_some_iff.mp computed
  refine ⟨m, constant, linked, found, parent, fun fit ↦ ?_⟩
  cases fit.constants _ _ _ found parent

end IdlLinker
