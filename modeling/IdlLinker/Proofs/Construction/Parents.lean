import IdlLinker.Proofs.Construction.Growth

/-!
# Parents are known

The node of an enum names what the enum is nested in, and so does an enum member, which has it from
there. Neither is said to be remembered by `Growth`: the enum may be an old one, and growth assumes
nothing about old nodes. But a parent is written when it has been found, and what is found stays
remembered. So the sites of a construction have a property that other sites need not have: every
parent in them is remembered (`Site.ParentsKnown`). It is kept by growth, and by whoever opens a
node or writes to one.
-/

namespace IdlLinker.Construction

open IdlLinker.Graph IdlLinker.Link

variable {g : Graph} {s : Scope} {σ σ' : Site} {space : Space} {key : String} {i : Nat}
  {x y : Cell space}

/-- The parent that a node names is remembered. -/
def Site.Knows (σ : Site) : (space : Space) → Cell space → Prop
  | .enums, x => ∀ u, x.parent? = some u → ∃ key, σ.typeIds.find? key = some u
  | .members, x => ∀ m u, x = some m → m.parent? = some u → ∃ key, σ.typeIds.find? key = some u
  | _, _ => True

/-- Every enum and every enum member that is remembered has a node, and the parent that is named
there is remembered. -/
structure Site.ParentsKnown (σ : Site) : Prop where
  enums : ∀ {key id}, σ.typeIds.find? key = some (.enum id) →
    ∃ e, (σ.arenas .enums).get? id.index = some e ∧ σ.Knows .enums e
  members : ∀ {key id}, σ.memberIds.find? key = some id →
    ∃ m?, (σ.arenas .members).get? id.index = some m? ∧ σ.Knows .members m?

theorem parentsKnown_empty : ({} : Site).ParentsKnown := ⟨nofun, nofun⟩

theorem Site.Knows.mono (h : σ.Knows space x) (later : σ.Extends σ') : σ'.Knows space x := by
  cases space with
  | enums =>
    intro u parent
    obtain ⟨key, cached⟩ := h u parent
    exact ⟨key, later.typeIds cached⟩
  | members =>
    intro m u filled parent
    obtain ⟨key, cached⟩ := h m u filled parent
    exact ⟨key, later.typeIds cached⟩
  | _ => trivial

theorem Site.knows_empty (σ : Site) (space : Space) : σ.Knows space (Cell.empty space) := by
  cases space with
  | enums => exact nofun
  | members => exact nofun
  | _ => trivial

theorem Site.Knows.put (h : σ.Knows space x) {space' : Space} {y : Cell space'} :
    (σ.put space' i y).Knows space x := by
  cases space <;> exact h

namespace Site.ParentsKnown

/-- What has to be shown of the enums of a site that extends another is about those that were not
remembered before. -/
theorem enums_of_extends (h : σ.ParentsKnown) (later : σ.Extends σ')
    (enums : ∀ {key id}, σ.typeIds.find? key = none → σ'.typeIds.find? key = some (.enum id) →
      ∃ e, (σ'.arenas .enums).get? id.index = some e ∧ σ'.Knows .enums e)
    {key : TypeKey} {id : EnumId} (cached : σ'.typeIds.find? key = some (.enum id)) :
    ∃ e, (σ'.arenas .enums).get? id.index = some e ∧ σ'.Knows .enums e := by
  cases early : σ.typeIds.find? key with
  | none => exact enums early cached
  | some u =>
    obtain rfl := Option.some.inj ((later.typeIds early).symm.trans cached)
    obtain ⟨e, node, knows⟩ := h.enums early
    exact ⟨e, later.get? node, knows.mono later⟩

theorem of_extends (h : σ.ParentsKnown) (later : σ.Extends σ')
    (enums : ∀ {key id}, σ.typeIds.find? key = none → σ'.typeIds.find? key = some (.enum id) →
      ∃ e, (σ'.arenas .enums).get? id.index = some e ∧ σ'.Knows .enums e)
    (members : ∀ {key id}, σ.memberIds.find? key = none → σ'.memberIds.find? key = some id →
      ∃ m?, (σ'.arenas .members).get? id.index = some m? ∧ σ'.Knows .members m?) :
    σ'.ParentsKnown where
  enums := h.enums_of_extends later enums
  members {key id} cached := by
    cases early : σ.memberIds.find? key with
    | none => exact members early cached
    | some id' =>
      obtain rfl := Option.some.inj ((later.memberIds early).symm.trans cached)
      obtain ⟨m?, node, knows⟩ := h.members early
      exact ⟨m?, later.get? node, knows.mono later⟩

theorem addType (h : σ.ParentsKnown) (new : σ.typeIds.find? key = none) (tag : TypeTag) :
    (σ.addType key tag).ParentsKnown := by
  refine h.of_extends (.addType new tag) (fun new' cached ↦ ?_)
    fun new' cached ↦ nomatch new'.symm.trans cached
  rcases Table.of_find?_insert cached with ⟨rfl, same⟩ | cached
  · -- A type that is an enum has an empty node, which names no parent.
    cases tag with
    | enum =>
      obtain rfl := UserType.enum.inj same
      exact ⟨_, get?_extend_self σ _, nofun⟩
    | _ => cases same
  · cases new'.symm.trans cached

theorem addConstant (h : σ.ParentsKnown) (new : σ.constantIds.find? key = none) :
    (σ.addConstant key).ParentsKnown :=
  h.of_extends (.addConstant new) (fun new' cached ↦ nomatch new'.symm.trans cached)
    fun new' cached ↦ nomatch new'.symm.trans cached

theorem addMember (h : σ.ParentsKnown) (new : σ.memberIds.find? key = none) :
    (σ.addMember key).ParentsKnown := by
  refine h.of_extends (.addMember new) (fun new' cached ↦ nomatch new'.symm.trans cached)
    fun new' cached ↦ ?_
  rcases Table.of_find?_insert cached with ⟨rfl, rfl⟩ | cached
  · exact ⟨_, get?_extend_self σ _, nofun⟩
  · cases new'.symm.trans cached

theorem put (h : σ.ParentsKnown) (node : (σ.arenas space).get? i = some x)
    (knows : σ.Knows space y) : (σ.put space i y).ParentsKnown where
  enums {key id} cached := by
    obtain ⟨e, node', knows'⟩ := h.enums cached
    by_cases same : .enums = space ∧ id.index = i
    · obtain ⟨rfl, rfl⟩ := same
      exact ⟨y, get?_put_self node, knows⟩
    · exact ⟨e, (get?_put_of_ne σ y fun eq position ↦ same ⟨eq, position⟩).trans node', knows'⟩
  members {key id} cached := by
    obtain ⟨m?, node', knows'⟩ := h.members cached
    by_cases same : .members = space ∧ id.index = i
    · obtain ⟨rfl, rfl⟩ := same
      exact ⟨y, get?_put_self node, knows⟩
    · exact ⟨m?, (get?_put_of_ne σ y fun eq position ↦ same ⟨eq, position⟩).trans node', knows'⟩

end Site.ParentsKnown

/-! ## Growth -/

theorem Site.knows_of_container {container? : Option TypeKey} {e : Module.Enum}
    (parent : ∀ {ρ}, σ.NamedBy ρ → e.parent? = container?.map ρ.type)
    (found : ∀ {container}, container? = some container → σ.Remembers (.type container none)) :
    σ.Knows .enums e := by
  intro u nested
  obtain ⟨ρ, named⟩ := exists_namedBy σ
  obtain ⟨container, there, rfl⟩ := Option.map_eq_some_iff.mp ((parent named).symm.trans nested)
  cases found there with
  | type cached _ => exact ⟨container, (named.type cached).symm ▸ cached⟩

theorem AddsType.knows {id : EnumId} (h : AddsType g s σ σ' key (.enum id)) :
    ∃ e, (σ'.arenas .enums).get? id.index = some e ∧ σ'.Knows .enums e := by
  obtain ⟨d, i, x, position, -, complete⟩ := h
  cases d with
  | enum d =>
    obtain rfl := UserType.enum.inj position
    exact ⟨x, complete.node, Site.knows_of_container (fun named ↦ (complete.image named).parent)
      fun there ↦ complete.uses (.enumContainer there)⟩
  | _ => cases position

/-- Parents stay known, and those of what is added are known, too. -/
theorem Growth.parentsKnown (h : Growth g s σ σ') (known : σ.ParentsKnown) : σ'.ParentsKnown := by
  have enums : ∀ {key id}, σ.typeIds.find? key = none → σ'.typeIds.find? key = some (.enum id) →
      ∃ e, (σ'.arenas .enums).get? id.index = some e ∧ σ'.Knows .enums e :=
    fun new cached ↦ (h.types new cached).knows
  refine known.of_extends h.kept enums fun {key id} new cached ↦ ?_
  obtain ⟨d, m, e, -, complete⟩ := h.members new cached
  refine ⟨some m, complete.node, ?_⟩
  rintro _ u ⟨⟩ parent
  -- The parent is that of the enum, whether this was there before or has been added.
  obtain ⟨e', node, knows⟩ := known.enums_of_extends h.kept enums complete.cached
  obtain rfl := Option.some.inj (complete.enum.symm.trans node)
  rcases complete.parent with orphan | same
  · cases orphan.symm.trans parent
  · exact knows u (same.symm.trans parent)

end IdlLinker.Construction
