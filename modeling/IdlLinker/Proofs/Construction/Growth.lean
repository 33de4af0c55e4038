import IdlLinker.Proofs.Construction.Mirrors
import IdlLinker.Proofs.Image

/-!
# How a site grows

When a declaration is looked for, the site is left as it was, but for what is added to it. What is
remembered stays, the nodes stay where and as they are, and new nodes come after the old ones
(`Site.Extends`). What is added is complete: each key that is remembered since then has a node of
its own, which is filled in, and all that its declaration names is remembered, too (`Growth`).

Nothing is assumed about the site, neither what is in its nodes nor where its keys lead. In
particular any number of nodes may be open, of the callers on the way to this place. That they are
left alone is not said of them one by one: they are old.

## Open nodes

A caller that has opened a node writes to it between the declarations that it looks for. Growth does
not mind (`Growth.put`). A node that was added since then is another one, with one exception: an
enum member has its owner and its parent from the node of its enum, and this may be the open one.
So the owner of an enum may not be changed any more, and its parent only if it has none yet
(`KeepsPlace`).
-/

namespace IdlLinker.Construction

open IdlLinker.Graph IdlLinker.Link

variable {g : Graph} {s : Scope} {σ σ₁ σ' σ'' : Site} {space : Space} {key : String} {i : Nat}
  {x y : Cell space} {u : UserType} {tag : TypeTag}

theorem lt_size_of_get? (node : (σ.arenas space).get? i = some x) : i < (σ.arenas space).size :=
  (List.getElem?_eq_some_iff.mp node).1

/-! ## Extending -/

/-- A site has all that another has, at the same places. -/
structure Site.Extends (σ σ' : Site) : Prop where
  typeIds : ∀ {key u}, σ.typeIds.find? key = some u → σ'.typeIds.find? key = some u
  constantIds : ∀ {key id}, σ.constantIds.find? key = some id → σ'.constantIds.find? key = some id
  memberIds : ∀ {key id}, σ.memberIds.find? key = some id → σ'.memberIds.find? key = some id
  /-- New nodes come after those that were there, which are as they were. -/
  arenas : ∀ space, (σ.arenas space).items <+: (σ'.arenas space).items

namespace Site.Extends

theorem refl (σ : Site) : σ.Extends σ := ⟨id, id, id, fun _ ↦ List.prefix_rfl⟩

theorem trans (h : σ.Extends σ') (h' : σ'.Extends σ'') : σ.Extends σ'' where
  typeIds cached := h'.typeIds (h.typeIds cached)
  constantIds cached := h'.constantIds (h.constantIds cached)
  memberIds cached := h'.memberIds (h.memberIds cached)
  arenas space := (h.arenas space).trans (h'.arenas space)

theorem size_le (h : σ.Extends σ') (space : Space) :
    (σ.arenas space).size ≤ (σ'.arenas space).size :=
  (h.arenas space).length_le

theorem get? (h : σ.Extends σ') (node : (σ.arenas space).get? i = some x) :
    (σ'.arenas space).get? i = some x := by
  obtain ⟨more, same⟩ := h.arenas space
  rw [Arena.get?, ← same, List.getElem?_append_left (lt_size_of_get? node)]
  exact node

theorem put (h : σ.Extends σ') (inside : i < (σ.arenas space).size) (y : Cell space) :
    (σ.put space i y).Extends (σ'.put space i y) where
  typeIds := h.typeIds
  constantIds := h.constantIds
  memberIds := h.memberIds
  arenas space' := by
    obtain ⟨more, same⟩ := h.arenas space'
    by_cases there : space' = space
    · subst there
      rw [Site.put, Site.put, arenas_setArena_self, arenas_setArena_self, ← same,
        List.set_append_left _ _ inside]
      exact List.prefix_append _ _
    · rw [Site.put, Site.put, arenas_setArena_of_ne _ _ there, arenas_setArena_of_ne _ _ there]
      exact h.arenas space'

theorem put_new (h : σ.Extends σ') (outside : (σ.arenas space).size ≤ i) (y : Cell space) :
    σ.Extends (σ'.put space i y) where
  typeIds := h.typeIds
  constantIds := h.constantIds
  memberIds := h.memberIds
  arenas space' := by
    obtain ⟨more, same⟩ := h.arenas space'
    by_cases there : space' = space
    · subst there
      rw [Site.put, arenas_setArena_self, ← same, List.set_append_right _ _ outside]
      exact List.prefix_append _ _
    · rw [Site.put, arenas_setArena_of_ne _ _ there]
      exact h.arenas space'

theorem arenas_extend (σ : Site) (x : Cell space) (space' : Space) :
    (σ.arenas space').items <+: ((σ.extend space x).arenas space').items := by
  by_cases there : space' = space
  · subst there
    rw [Site.extend, arenas_setArena_self]
    exact List.prefix_append _ _
  · have same : (σ.extend space x).arenas space' = σ.arenas space' :=
      arenas_setArena_of_ne _ _ there
    exact same ▸ List.prefix_rfl

theorem addType (new : σ.typeIds.find? key = none) (tag : TypeTag) :
    σ.Extends (σ.addType key tag) where
  typeIds := Table.find?_insert_of_new new
  constantIds := id
  memberIds := id
  arenas := arenas_extend σ _

theorem addConstant (new : σ.constantIds.find? key = none) : σ.Extends (σ.addConstant key) where
  typeIds := id
  constantIds := Table.find?_insert_of_new new
  memberIds := id
  arenas := arenas_extend σ _

theorem addMember (new : σ.memberIds.find? key = none) : σ.Extends (σ.addMember key) where
  typeIds := id
  constantIds := id
  memberIds := Table.find?_insert_of_new new
  arenas := arenas_extend σ _

end Site.Extends

theorem put_put (σ : Site) (x y : Cell space) :
    (σ.put space i x).put space i y = σ.put space i y := by
  simp only [Site.put, Site.setArena, Function.update_idem, Function.update_self, List.set_set]

/-! ## Complete nodes -/

/-- What a declaration names is remembered, and is a type of the right kind where one is asked
for. -/
inductive Site.Remembers (σ : Site) : Use → Prop where
  | type {key : TypeKey} {expected? : Option TypeTag} {u : UserType}
    (cached : σ.typeIds.find? key = some u) (fits : ∀ tag, expected? = some tag → u.tag = tag) :
    Remembers σ (.type key expected?)
  | constant {key : ValueKey} {id : ConstantId} (cached : σ.constantIds.find? key = some id) :
    Remembers σ (.constant key)
  | valueConstant {key : ValueKey} {id : ConstantId}
    (cached : σ.constantIds.find? key = some id) : Remembers σ (.value key)
  | valueMember {key : ValueKey} {id : MemberId} (cached : σ.memberIds.find? key = some id) :
    Remembers σ (.value key)

/-- A naming says of the keys that are remembered what is remembered of them. -/
structure Site.NamedBy (σ : Site) (ρ : Naming) : Prop where
  type : ∀ {key u}, σ.typeIds.find? key = some u → ρ.type key = u
  constant : ∀ {key id}, σ.constantIds.find? key = some id → ρ.constant key = id
  member : ∀ {key id}, σ.memberIds.find? key = some id → ρ.member key = id

theorem exists_namedBy (σ : Site) : ∃ ρ, σ.NamedBy ρ := by
  refine ⟨⟨fun key ↦ (σ.typeIds.find? key).getD (.struct ⟨0⟩),
    fun key ↦ (σ.constantIds.find? key).getD ⟨0⟩,
    fun key ↦ (σ.memberIds.find? key).getD ⟨0⟩⟩, ?_, ?_, ?_⟩
  all_goals
    intro key a cached
    exact congrArg (Option.getD · _) cached

def CellImage (g : Graph) (s : Scope) (ρ : Naming) : (d : TypeDecl) → Cell (arenaOf d.tag) → Prop
  | .struct d, x => StructImage g s.file s.module ρ d x
  | .union d, x => UnionImage s.file s.module ρ d x
  | .enum d, x => EnumImage g s.file s.module ρ d x
  | .interface d, x => InterfaceImage s.file s.module ρ d x

/-- The type under a key has a complete node. -/
structure Site.HasType (g : Graph) (s : Scope) (σ : Site) (key : TypeKey) (d : TypeDecl) (i : Nat)
    (x : Cell (arenaOf d.tag)) : Prop where
  found : g.types.find? key = some d
  node : (σ.arenas (arenaOf d.tag)).get? i = some x
  image : ∀ {ρ}, σ.NamedBy ρ → CellImage g s ρ d x
  uses : ∀ {use}, d.Uses use → σ.Remembers use

/-- The constant under a key has a slot that is filled. -/
structure Site.HasConstant (g : Graph) (s : Scope) (σ : Site) (key : ValueKey)
    (d : Graph.Constant) (id : ConstantId) (c : Module.Constant) : Prop where
  found : g.values.find? key = some (.constant d)
  node : (σ.arenas .constants).get? id.index = some (some c)
  image : ∀ {ρ}, σ.NamedBy ρ → ConstantImage g s.file s.module ρ d c
  uses : ∀ {use}, (ValueDecl.constant d).Uses use → σ.Remembers use

/-- The enum member under a key has a slot that is filled. It belongs where the node of its enum
says, and is nested where this says or nowhere. -/
structure Site.HasMember (g : Graph) (s : Scope) (σ : Site) (key : ValueKey)
    (d : Graph.Enumerator) (id : MemberId) (m : Module.Member) (e : Module.Enum) : Prop where
  found : g.values.find? key = some (.enumerator d)
  node : (σ.arenas .members).get? id.index = some (some m)
  name : m.name = d.info.shortName
  cached : σ.typeIds.find? d.enum = some (.enum m.enum)
  enum : (σ.arenas .enums).get? m.enum.index = some e
  owner : m.owner = e.owner
  moduleNamespace : m.moduleNamespace = s.module.namespaceOf m.owner
  parent : m.parent? = none ∨ m.parent? = e.parent?

/-! ### Complete nodes stay complete -/

theorem Site.Remembers.mono {use : Use} (h : σ.Remembers use) (later : σ.Extends σ') :
    σ'.Remembers use := by
  cases h with
  | type cached fits => exact .type (later.typeIds cached) fits
  | constant cached => exact .constant (later.constantIds cached)
  | valueConstant cached => exact .valueConstant (later.constantIds cached)
  | valueMember cached => exact .valueMember (later.memberIds cached)

theorem Site.NamedBy.anti {ρ : Naming} (h : σ'.NamedBy ρ) (later : σ.Extends σ') : σ.NamedBy ρ where
  type cached := h.type (later.typeIds cached)
  constant cached := h.constant (later.constantIds cached)
  member cached := h.member (later.memberIds cached)

theorem Site.HasType.mono {d : TypeDecl} {x : Cell (arenaOf d.tag)}
    (h : σ.HasType g s key d i x) (later : σ.Extends σ') : σ'.HasType g s key d i x where
  found := h.found
  node := later.get? h.node
  image named := h.image (named.anti later)
  uses names := (h.uses names).mono later

theorem Site.HasConstant.mono {d : Graph.Constant} {id : ConstantId} {c : Module.Constant}
    (h : σ.HasConstant g s key d id c) (later : σ.Extends σ') : σ'.HasConstant g s key d id c where
  found := h.found
  node := later.get? h.node
  image named := h.image (named.anti later)
  uses names := (h.uses names).mono later

theorem Site.HasMember.mono {d : Graph.Enumerator} {id : MemberId} {m : Module.Member}
    {e : Module.Enum} (h : σ.HasMember g s key d id m e) (later : σ.Extends σ') :
    σ'.HasMember g s key d id m e :=
  { h with
    node := later.get? h.node
    cached := later.typeIds h.cached
    enum := later.get? h.enum }

/-! ### Writing an open node -/

/-- What enum members may have read from a node is still there: the owner of an enum, and its parent
if there is one. -/
def KeepsPlace : (space : Space) → Cell space → Cell space → Prop
  | .enums, x, y => y.owner = x.owner ∧ (x.parent? = none ∨ y.parent? = x.parent?)
  | _, _, _ => True

theorem KeepsPlace.trans {z : Cell space} (h : KeepsPlace space x y) (h' : KeepsPlace space y z) :
    KeepsPlace space x z := by
  cases space with
  | enums =>
    refine ⟨h'.1.trans h.1, ?_⟩
    rcases h.2 with orphan | same
    · exact Or.inl orphan
    · exact h'.2.imp same.symm.trans fun same' ↦ same'.trans same
  | _ => trivial

theorem Site.Remembers.put {use : Use} (h : σ.Remembers use) : (σ.put space i y).Remembers use := by
  cases h with
  | type cached fits => exact .type cached fits
  | constant cached => exact .constant cached
  | valueConstant cached => exact .valueConstant cached
  | valueMember cached => exact .valueMember cached

theorem Site.NamedBy.of_put {ρ : Naming} (h : (σ.put space i y).NamedBy ρ) : σ.NamedBy ρ :=
  ⟨h.type, h.constant, h.member⟩

theorem Site.HasType.put {d : TypeDecl} {j : Nat} {z : Cell (arenaOf d.tag)}
    (h : σ.HasType g s key d j z) (other : arenaOf d.tag = space → j ≠ i) :
    (σ.put space i y).HasType g s key d j z where
  found := h.found
  node := (get?_put_of_ne _ _ other).trans h.node
  image named := h.image named.of_put
  uses names := (h.uses names).put

theorem Site.HasConstant.put {d : Graph.Constant} {id : ConstantId} {c : Module.Constant}
    (h : σ.HasConstant g s key d id c) (other : .constants = space → id.index ≠ i) :
    (σ.put space i y).HasConstant g s key d id c where
  found := h.found
  node := (get?_put_of_ne _ _ other).trans h.node
  image named := h.image named.of_put
  uses names := (h.uses names).put

theorem Site.HasMember.put {d : Graph.Enumerator} {id : MemberId} {m : Module.Member}
    {e : Module.Enum} (h : σ.HasMember g s key d id m e) (other : .members = space → id.index ≠ i)
    (old : (σ.arenas space).get? i = some x) (keeps : KeepsPlace space x y) :
    ∃ e, (σ.put space i y).HasMember g s key d id m e := by
  have node := (get?_put_of_ne σ y other).trans h.node
  by_cases same : .enums = space ∧ m.enum.index = i
  · obtain ⟨rfl, rfl⟩ := same
    obtain rfl : x = e := Option.some.inj (old.symm.trans h.enum)
    obtain ⟨owner, parent⟩ := keeps
    refine ⟨y, { h with
      node
      enum := get?_put_self h.enum
      owner := h.owner.trans owner.symm
      parent := ?_ }⟩
    rcases h.parent with orphan | parent'
    · exact Or.inl orphan
    · exact parent.imp parent'.trans fun same ↦ parent'.trans same.symm
  · have enum := (get?_put_of_ne σ y fun eq position ↦ same ⟨eq, position⟩).trans h.enum
    exact ⟨e, { h with node, enum }⟩

/-! ## Growth -/

/-- The type under a key has a complete node, which another site did not have. -/
def AddsType (g : Graph) (s : Scope) (σ σ' : Site) (key : TypeKey) (u : UserType) : Prop :=
  ∃ d i x, u = .ofTag d.tag i ∧ (σ.arenas (arenaOf d.tag)).size ≤ i ∧ σ'.HasType g s key d i x

/-- The constant under a key has a slot that is filled, which another site did not have. -/
def AddsConstant (g : Graph) (s : Scope) (σ σ' : Site) (key : ValueKey) (id : ConstantId) : Prop :=
  ∃ d c, (σ.arenas .constants).size ≤ id.index ∧ σ'.HasConstant g s key d id c

/-- The enum member under a key has a slot that is filled, which another site did not have. -/
def AddsMember (g : Graph) (s : Scope) (σ σ' : Site) (key : ValueKey) (id : MemberId) : Prop :=
  ∃ d m e, (σ.arenas .members).size ≤ id.index ∧ σ'.HasMember g s key d id m e

/-- **A site grows.** What was there is left alone, and what is added is complete. -/
structure Growth (g : Graph) (s : Scope) (σ σ' : Site) : Prop where
  kept : σ.Extends σ'
  types : ∀ {key u}, σ.typeIds.find? key = none → σ'.typeIds.find? key = some u →
    AddsType g s σ σ' key u
  constants : ∀ {key id}, σ.constantIds.find? key = none → σ'.constantIds.find? key = some id →
    AddsConstant g s σ σ' key id
  members : ∀ {key id}, σ.memberIds.find? key = none → σ'.memberIds.find? key = some id →
    AddsMember g s σ σ' key id

theorem AddsType.mono (h : AddsType g s σ₁ σ' key u) (before : σ.Extends σ₁)
    (after : σ'.Extends σ'') : AddsType g s σ σ'' key u := by
  obtain ⟨d, i, x, position, new, complete⟩ := h
  exact ⟨d, i, x, position, (before.size_le _).trans new, complete.mono after⟩

theorem AddsConstant.mono {id : ConstantId} (h : AddsConstant g s σ₁ σ' key id)
    (before : σ.Extends σ₁) (after : σ'.Extends σ'') : AddsConstant g s σ σ'' key id := by
  obtain ⟨d, c, new, complete⟩ := h
  exact ⟨d, c, (before.size_le _).trans new, complete.mono after⟩

theorem AddsMember.mono {id : MemberId} (h : AddsMember g s σ₁ σ' key id)
    (before : σ.Extends σ₁) (after : σ'.Extends σ'') : AddsMember g s σ σ'' key id := by
  obtain ⟨d, m, e, new, complete⟩ := h
  exact ⟨d, m, e, (before.size_le _).trans new, complete.mono after⟩

namespace Growth

theorem refl (σ : Site) : Growth g s σ σ where
  kept := .refl σ
  types new cached := nomatch new.symm.trans cached
  constants new cached := nomatch new.symm.trans cached
  members new cached := nomatch new.symm.trans cached

/-- A site that is prepared first and grows then has grown, if what it was prepared for is complete
in the end. -/
theorem enclose (before : σ.Extends σ₁) (h : Growth g s σ₁ σ')
    (types : ∀ {key u}, σ.typeIds.find? key = none → σ₁.typeIds.find? key = some u →
      AddsType g s σ σ' key u)
    (constants : ∀ {key id}, σ.constantIds.find? key = none →
      σ₁.constantIds.find? key = some id → AddsConstant g s σ σ' key id)
    (members : ∀ {key id}, σ.memberIds.find? key = none →
      σ₁.memberIds.find? key = some id → AddsMember g s σ σ' key id) : Growth g s σ σ' where
  kept := before.trans h.kept
  types {key u} new cached := by
    cases early : σ₁.typeIds.find? key with
    | none => exact (h.types early cached).mono before (.refl σ')
    | some u' =>
      obtain rfl : u' = u := Option.some.inj ((h.kept.typeIds early).symm.trans cached)
      exact types new early
  constants {key id} new cached := by
    cases early : σ₁.constantIds.find? key with
    | none => exact (h.constants early cached).mono before (.refl σ')
    | some id' =>
      obtain rfl : id' = id := Option.some.inj ((h.kept.constantIds early).symm.trans cached)
      exact constants new early
  members {key id} new cached := by
    cases early : σ₁.memberIds.find? key with
    | none => exact (h.members early cached).mono before (.refl σ')
    | some id' =>
      obtain rfl : id' = id := Option.some.inj ((h.kept.memberIds early).symm.trans cached)
      exact members new early

theorem trans (h : Growth g s σ σ') (h' : Growth g s σ' σ'') : Growth g s σ σ'' :=
  .enclose h.kept h'
    (fun new cached ↦ (h.types new cached).mono (.refl σ) h'.kept)
    (fun new cached ↦ (h.constants new cached).mono (.refl σ) h'.kept)
    fun new cached ↦ (h.members new cached).mono (.refl σ) h'.kept

theorem put (h : Growth g s σ σ') (inside : i < (σ.arenas space).size)
    (node : (σ'.arenas space).get? i = some x) (keeps : KeepsPlace space x y) :
    Growth g s (σ.put space i y) (σ'.put space i y) where
  kept := h.kept.put inside y
  types {key u} new cached := by
    obtain ⟨d, j, z, position, added, complete⟩ := h.types new cached
    refine ⟨d, j, z, position, (size_put ..).trans_le added, complete.put ?_⟩
    rintro rfl rfl
    exact absurd inside (Nat.not_lt.mpr added)
  constants {key id} new cached := by
    obtain ⟨d, c, added, complete⟩ := h.constants new cached
    refine ⟨d, c, (size_put ..).trans_le added, complete.put ?_⟩
    rintro rfl rfl
    exact absurd inside (Nat.not_lt.mpr added)
  members {key id} new cached := by
    obtain ⟨d, m, e, added, complete⟩ := h.members new cached
    have other : .members = space → id.index ≠ i := by
      rintro rfl rfl
      exact absurd inside (Nat.not_lt.mpr added)
    obtain ⟨e', complete'⟩ := complete.put other node keeps
    exact ⟨d, m, e', (size_put ..).trans_le added, complete'⟩

/-! ### New declarations

Before anything is built the key of the new declaration is the only one that is remembered in
addition.
-/

theorem addType (new : σ.typeIds.find? key = none) {x : Cell (arenaOf tag)}
    (h : Growth g s ((σ.addType key tag).put (arenaOf tag) (σ.arenas (arenaOf tag)).size x) σ')
    (complete : AddsType g s σ σ' key (.ofTag tag (σ.arenas (arenaOf tag)).size)) :
    Growth g s σ σ' := by
  have before : σ.Extends ((σ.addType key tag).put (arenaOf tag) (σ.arenas (arenaOf tag)).size x) :=
    Site.Extends.put_new (.addType new tag) (Nat.le_refl _) _
  refine .enclose before h
    (fun new' cached ↦ ?_) (fun new' cached ↦ nomatch new'.symm.trans cached)
    (fun new' cached ↦ nomatch new'.symm.trans cached)
  rcases Table.of_find?_insert cached with ⟨rfl, rfl⟩ | cached
  · exact complete
  · cases new'.symm.trans cached

theorem addConstant (new : σ.constantIds.find? key = none) {c : Option Module.Constant}
    (h : Growth g s ((σ.addConstant key).put .constants (σ.arenas .constants).size c) σ')
    (complete : AddsConstant g s σ σ' key ⟨(σ.arenas .constants).size⟩) : Growth g s σ σ' := by
  have before : σ.Extends ((σ.addConstant key).put .constants (σ.arenas .constants).size c) :=
    Site.Extends.put_new (.addConstant new) (Nat.le_refl _) _
  refine .enclose before h
    (fun new' cached ↦ nomatch new'.symm.trans cached) (fun new' cached ↦ ?_)
    (fun new' cached ↦ nomatch new'.symm.trans cached)
  rcases Table.of_find?_insert cached with ⟨rfl, rfl⟩ | cached
  · exact complete
  · cases new'.symm.trans cached

theorem addMember (new : σ.memberIds.find? key = none) {m : Option Module.Member}
    (h : Growth g s ((σ.addMember key).put .members (σ.arenas .members).size m) σ')
    (complete : AddsMember g s σ σ' key ⟨(σ.arenas .members).size⟩) : Growth g s σ σ' := by
  have before : σ.Extends ((σ.addMember key).put .members (σ.arenas .members).size m) :=
    Site.Extends.put_new (.addMember new) (Nat.le_refl _) _
  refine .enclose before h
    (fun new' cached ↦ nomatch new'.symm.trans cached)
    (fun new' cached ↦ nomatch new'.symm.trans cached) (fun new' cached ↦ ?_)
  rcases Table.of_find?_insert cached with ⟨rfl, rfl⟩ | cached
  · exact complete
  · cases new'.symm.trans cached

end Growth

end IdlLinker.Construction
