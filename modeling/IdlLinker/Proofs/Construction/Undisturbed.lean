import IdlLinker.Proofs.Construction.Answers
import IdlLinker.Proofs.Construction.Resolve

/-!
# Finding declarations disturbs nothing

Whoever looks for a declaration while its own node is open finds the node as it was left, at the
same position. So does every caller further up. This is what makes it safe to write a node in
several steps, with any amount of construction between them.

The site is not known to be well-formed here, and no walk stands beside it: the growth of a site
(`Growth`) is shown of whatever finds declarations, from every site, by induction on the levels
(`grows_resolver`). Of the three that write, a type writes several times, and `Furnishes` accounts
for it: what is written is put into the open node *before* the site grows, since growth may be moved
past a write. In the end a type that is new has its node first, filled in already, and then the site
grows.

It is shown along with this that a second resolver makes no difference, as long as it makes none
where parents are known. This is used in `IdlLinker.Proofs.Construction.Calls` to say from which
sites a run looks for declarations.
-/

namespace IdlLinker.Construction

open IdlLinker.Graph IdlLinker.Link

variable {g : Graph} {s : Scope} {σ σ₁ σ' σ'' : Site} {space : Space} {key : String} {i n : Nat}
  {x y : Cell space} {r r' : Resolver} {α : Type} {rs rs' : List Requirement}

/-! ## Writing the open node in several steps -/

/-- A node is open while parents are known, its own included. -/
structure Site.Opened (σ : Site) (space : Space) (i : Nat) (x : Cell space) : Prop where
  node : (σ.arenas space).get? i = some x
  parents : σ.ParentsKnown
  knows : σ.Knows space x

theorem Site.Opened.later (h : σ.Opened space i x) (growth : Growth g s σ σ') :
    σ'.Opened space i x :=
  ⟨growth.kept.get? h.node, growth.parentsKnown h.parents, h.knows.mono growth.kept⟩

theorem Site.Opened.put (h : σ.Opened space i x) (knows : σ.Knows space y) :
    (σ.put space i y).Opened space i y :=
  ⟨get?_put_self h.node, h.parents.put h.node knows, knows.put⟩

/-- What a part does that writes an open node. The site has grown from where the node had its new
content already. -/
structure Furnished (g : Graph) (s : Scope) (space : Space) (i : Nat) (rs : List Requirement)
    (post : Naming → Cell space → Prop) (σ : Site) (x x' : Cell space) (σ' : Site) : Prop where
  growth : Growth g s (σ.put space i x') σ'
  keeps : KeepsPlace space x x'
  uses : ∀ {use}, Asks rs use → σ'.Remembers use
  image : ∀ {ρ}, σ'.NamedBy ρ → post ρ x'
  opened : σ.Opened space i x → σ'.Opened space i x'

/-- Whenever a part succeeds it furnishes the node at a position, in which something was before. It
is the same with the other resolver. -/
structure Furnishes (g : Graph) (s : Scope) (space : Space) (i : Nat) (x : Cell space)
    (c c' : Build Unit) (rs : List Requirement) (post : Naming → Cell space → Prop) : Prop where
  furnished : ∀ {σ σ'}, (σ.arenas space).get? i = some x → c σ = .ok ((), σ') →
    ∃ x', Furnished g s space i rs post σ x x' σ'
  same : ∀ {σ}, σ.Opened space i x → c' σ = c σ

namespace Furnishes

variable {c c' : Build α} {c₁ c₁' c₂ c₂' : Build Unit} {post : Naming → α → Prop}
  {post₁ : Naming → Cell space → Prop} {post₂ : Cell space → Naming → Cell space → Prop}

theorem write (space : Space) {x : Cell space} (h : Answers g s c c' rs post)
    (f : α → Cell space → Cell space) (keeps : ∀ a, KeepsPlace space x (f a x))
    (knows : ∀ {σ a σ'}, Answered g s rs post σ a σ' → σ'.Knows space x → σ'.Knows space (f a x)) :
    Furnishes g s space i x (c >>= fun a ↦ Construction.write space i (f a))
      (c' >>= fun a ↦ Construction.write space i (f a)) rs
      fun ρ x' ↦ ∃ a, post ρ a ∧ x' = f a x := by
  refine ⟨fun node ran ↦ ?_, fun opened ↦ bind_eq_bind (h.same opened.parents) fun _ ↦ rfl⟩
  obtain ⟨a, σ₁, found, written⟩ := exists_of_bind_eq_ok ran
  have answered := h.answered found
  have node' := answered.growth.kept.get? node
  rw [write_apply node'] at written
  obtain ⟨-, rfl⟩ := Prod.mk.inj (Except.ok.inj written)
  exact ⟨f a x, answered.growth.put (lt_size_of_get? node) node' (keeps a), keeps a,
    fun asks ↦ (answered.uses asks).put, fun named ↦ ⟨a, answered.image named.of_put, rfl⟩,
    fun opened ↦ (opened.later answered.growth).put
      (knows answered (opened.knows.mono answered.growth.kept))⟩

theorem andThen (h₁ : Furnishes g s space i x c₁ c₁' rs post₁)
    (h₂ : ∀ x₁, Furnishes g s space i x₁ c₂ c₂' rs' (post₂ x₁)) :
    Furnishes g s space i x (c₁ >>= fun _ ↦ c₂) (c₁' >>= fun _ ↦ c₂') (rs ++ rs')
      fun ρ x' ↦ ∃ x₁, post₁ ρ x₁ ∧ post₂ x₁ ρ x' := by
  refine ⟨fun {σ σ'} node ran ↦ ?_, fun opened ↦ bind_eq_bind (h₁.same opened) fun first ↦ ?_⟩
  · obtain ⟨⟨⟩, σ₁, first, second⟩ := exists_of_bind_eq_ok ran
    obtain ⟨x₁, before⟩ := h₁.furnished node first
    have written : ((σ.put space i x₁).arenas space).get? i = some x₁ := get?_put_self node
    have node₁ := before.growth.kept.get? written
    obtain ⟨x₂, after⟩ := (h₂ x₁).furnished node₁ second
    -- The second content goes into the node as early as the first.
    have early := before.growth.put (lt_size_of_get? written) node₁ after.keeps
    rw [put_put] at early
    have kept := after.growth.kept
    refine ⟨x₂, early.trans after.growth, before.keeps.trans after.keeps, fun asks ↦ ?_,
      fun named ↦ ?_, fun opened ↦ after.opened (before.opened opened)⟩
    · rcases asks_append.mp asks with asks | asks
      · exact (before.uses asks).put.mono kept
      · exact after.uses asks
    · exact ⟨x₁, before.image (named.anti kept).of_put, after.image named⟩
  · obtain ⟨x₁, before⟩ := h₁.furnished opened.node first
    exact (h₂ x₁).same (before.opened opened)

theorem imp {post' : Naming → Cell space → Prop} (h : Furnishes g s space i x c₁ c₁' rs post₁)
    (imp : ∀ {ρ x'}, post₁ ρ x' → post' ρ x') : Furnishes g s space i x c₁ c₁' rs post' := by
  refine ⟨fun node ran ↦ ?_, h.same⟩
  obtain ⟨x', furnished⟩ := h.furnished node ran
  exact ⟨x', { furnished with image := fun named ↦ imp (furnished.image named) }⟩

end Furnishes

/-! ## The members of a type -/

/-- What is known of the header of a declaration. -/
structure HeaderImage (s : Scope) (d : Info) (h : Header) : Prop where
  name : h.name = d.shortName
  spec : h.spec = d.fullName?.getD d.shortName
  owner : OwnerImage s.file s.module d.source? h.owner
  attributes : AttributesImage d.attributes? h.attributes

theorem header_of_ok {d : Info} {h : Header} (ran : header s d σ = .ok (h, σ')) :
    σ' = σ ∧ HeaderImage s d h := by
  obtain ⟨o, σ₁, known, same⟩ := exists_of_bind_eq_ok ran
  obtain ⟨rfl, owner⟩ := owner_of_ok known
  obtain ⟨rfl, rfl⟩ := Prod.mk.inj (Except.ok.inj same)
  exact ⟨rfl, rfl, rfl, owner, attributesImage_attributesOf _⟩

theorem Site.Knows.fillIn {d : TypeDecl} {x : Cell (arenaOf d.tag)} (known : σ.Knows _ x)
    (h : Header) : σ.Knows _ (h.fillIn d x) := by
  cases d <;> exact known

section

variable (hr : r.Grows g s r')
include hr

theorem Furnishes.struct (d : Graph.Struct) {h : Header} (header : HeaderImage s d.info h) :
    Furnishes g s .structs i (h.fillIn (.struct d) (Cell.empty _)) (members g r i (.struct d))
      (members g r' i (.struct d)) (requirementsOfMembers key (.struct d)) fun ρ ↦
        StructImage g s.file s.module ρ d := by
  have fields : ∀ x, Furnishes g s .structs i x _ _ _ _ := fun x ↦
    .write .structs (.mapM (Answers.structField hr) d.fields)
      (fun fields (x : Module.Struct) ↦ { x with fields }) (fun _ ↦ trivial) fun _ _ ↦ trivial
  have nested : ∀ x, Furnishes g s .structs i x _ _ _ _ := fun x ↦
    .write .structs (Answers.contained hr d.info)
      (fun nested (x : Module.Struct) ↦ { x with enums := nested.1, constants := nested.2 })
      (fun _ ↦ trivial) fun _ _ ↦ trivial
  have both := (fields (h.fillIn (.struct d) (Cell.empty _))).andThen nested
  rw [bind_assoc, bind_assoc] at both
  refine both.imp ?_
  rintro ρ _ ⟨_, ⟨fields, fieldImages, rfl⟩, nested, nestedImage, rfl⟩
  exact
    { name := header.name
      spec := header.spec
      owner := header.owner
      attributes := header.attributes
      fields := fieldImages
      nested := nestedImage }

theorem Furnishes.union (d : Graph.Union) {h : Header} (header : HeaderImage s d.info h) :
    Furnishes g s .unions i (h.fillIn (.union d) (Cell.empty _)) (members g r i (.union d))
      (members g r' i (.union d)) (requirementsOfMembers key (.union d)) fun ρ ↦
        UnionImage s.file s.module ρ d := by
  have fields : Furnishes g s .unions i (h.fillIn (.union d) (Cell.empty _)) _ _ _ _ :=
    .write .unions (.mapM (Answers.unionField hr) d.fields)
      (fun fields (x : Module.Union) ↦ { x with fields }) (fun _ ↦ trivial) fun _ _ ↦ trivial
  refine fields.imp ?_
  rintro ρ _ ⟨fields, fieldImages, rfl⟩
  exact
    { name := header.name
      spec := header.spec
      owner := header.owner
      attributes := header.attributes
      fields := fieldImages }

/-- The parent of an enum is written before there is one, and its members keep it. -/
theorem Furnishes.enum (d : Graph.Enum) {h : Header} (header : HeaderImage s d.info h) :
    Furnishes g s .enums i (h.fillIn (.enum d) (Cell.empty _)) (members g r i (.enum d))
      (members g r' i (.enum d)) (requirementsOfMembers key (.enum d)) fun ρ ↦
        EnumImage g s.file s.module ρ d := by
  have container : Answers g s (parent r d.info) (parent r' d.info)
      (d.info.container?.toList.map (.container key)) fun ρ parent? ↦
        parent? = d.info.container?.map ρ.type :=
    (Answers.parent hr d.info).of_asks fun asks ↦ by simpa [Requirement.use?] using asks
  have asked : ∀ {c}, d.info.container? = some c →
      Asks (d.info.container?.toList.map (.container key)) (.type c none) := fun there ↦ by
    rw [there]
    exact asks_singleton.mpr rfl
  have parent : Furnishes g s .enums i (h.fillIn (.enum d) (Cell.empty _)) _ _ _ _ :=
    .write .enums container (fun parent? (x : Module.Enum) ↦ { x with parent? })
      (fun _ ↦ ⟨rfl, Or.inl rfl⟩)
      fun answered _ ↦ Site.knows_of_container answered.image (answered.uses <| asked ·)
  have fields : ∀ x, Furnishes g s .enums i x _ _ _ _ := fun x ↦
    .write .enums (.mapM (Answers.enumerator hr) d.values)
      (fun fields (x : Module.Enum) ↦ { x with fields }) (fun _ ↦ ⟨rfl, Or.inr rfl⟩)
      fun _ known ↦ known
  have both := parent.andThen fields
  rw [bind_assoc, bind_assoc] at both
  refine both.imp ?_
  rintro ρ _ ⟨_, ⟨parent?, parentImage, rfl⟩, fields, fieldImages, rfl⟩
  exact
    { name := header.name
      spec := header.spec
      owner := header.owner
      attributes := header.attributes
      parent := parentImage
      fields := fieldImages }

theorem Furnishes.interface (d : Graph.Interface) {h : Header}
    (header : HeaderImage s d.info h) :
    Furnishes g s .interfaces i (h.fillIn (.interface d) (Cell.empty _))
      (members g r i (.interface d)) (members g r' i (.interface d))
      (requirementsOfMembers key (.interface d)) fun ρ ↦ InterfaceImage s.file s.module ρ d := by
  have methods : ∀ x, Furnishes g s .interfaces i x _ _ _ _ := fun x ↦
    .write .interfaces (.mapM (fun m ↦ Answers.method hr m.2) d.methods.entries)
      (fun methods (x : Module.Interface) ↦ { x with methods }) (fun _ ↦ trivial)
      fun _ _ ↦ trivial
  have nested : ∀ x, Furnishes g s .interfaces i x _ _ _ _ := fun x ↦
    .write .interfaces (Answers.contained hr d.info)
      (fun nested (x : Module.Interface) ↦ { x with enums := nested.1, constants := nested.2 })
      (fun _ ↦ trivial) fun _ _ ↦ trivial
  have both := (methods (h.fillIn (.interface d) (Cell.empty _))).andThen nested
  rw [bind_assoc, bind_assoc] at both
  refine both.imp ?_
  rintro ρ _ ⟨_, ⟨methods, methodImages, rfl⟩, nested, nestedImage, rfl⟩
  exact
    { name := header.name
      spec := header.name
      owner := header.owner
      attributes := header.attributes
      service := rfl
      methods := methodImages
      nested := nestedImage }

/-- **The members of a type are filled in** when its header is there. -/
theorem furnishes_members (key : TypeKey) (d : TypeDecl) {h : Header}
    (header : HeaderImage s d.info h) :
    Furnishes g s (arenaOf d.tag) i (h.fillIn d (Cell.empty _)) (members g r i d)
      (members g r' i d) (requirementsOfMembers key d) fun ρ ↦ CellImage g s ρ d := by
  cases d with
  | struct d => exact .struct hr d header
  | union d => exact .union hr d header
  | enum d => exact .enum hr d header
  | interface d => exact .interface hr d header

end

/-! ## What a declaration is

A declaration that is asked for is remembered, or it cannot be found or have a node, or its node is
opened. Which of these it is does not depend on what finds other declarations.
-/

theorem type_of_full {d : TypeDecl} (new : σ.typeIds.find? key = none)
    (found : g.types.find? key = some d) (full : ¬(σ.arenas (arenaOf d.tag)).size < 2 ^ 32) :
    type g s r key σ = .error (.panicked (.overflow (σ.arenas (arenaOf d.tag)).size)) := by
  rw [type, bind_apply]
  change Except.bind (Except.ok (σ, σ)) _ = _
  simp only [Except.bind, new, found]
  rw [bind_apply, allocate, if_neg full]
  rfl

theorem constant_of_full {d : Graph.Constant} (new : σ.constantIds.find? key = none)
    (found : g.values.find? key = some (.constant d))
    (full : ¬(σ.arenas .constants).size < 2 ^ 32) :
    constant g s r key σ = .error (.panicked (.overflow (σ.arenas .constants).size)) := by
  rw [constant, bind_apply]
  change Except.bind (Except.ok (σ, σ)) _ = _
  simp only [Except.bind, new, found]
  rw [bind_apply, allocate, if_neg full]
  rfl

theorem member_of_full {d : Graph.Enumerator} (new : σ.memberIds.find? key = none)
    (full : ¬(σ.arenas .members).size < 2 ^ 32) :
    member s r key d σ = .error (.panicked (.overflow (σ.arenas .members).size)) := by
  rw [member, bind_apply]
  change Except.bind (Except.ok (σ, σ)) _ = _
  simp only [Except.bind, new]
  rw [bind_apply, allocate, if_neg full]
  rfl

/-- The site with a node for a type, in which there is the header. -/
def Site.openType (σ : Site) (key : TypeKey) (d : TypeDecl) (h : Header) : Site :=
  (σ.addType key d.tag).put (arenaOf d.tag) (σ.arenas (arenaOf d.tag)).size
    (h.fillIn d (Cell.empty _))

/-- A type that is new is opened with its header in it, unless it has no owner or no room. -/
theorem type_cases (g : Graph) (s : Scope) (key : TypeKey) (σ : Site) :
    (∃ u, σ.typeIds.find? key = some u ∧ ∀ r, type g s r key σ = .ok (u, σ)) ∨
      (∃ halt, ∀ r, type g s r key σ = .error halt) ∨
      ∃ d h, σ.typeIds.find? key = none ∧ g.types.find? key = some d ∧ HeaderImage s d.info h ∧
        ∀ r, type g s r key σ =
          (members g r (σ.arenas (arenaOf d.tag)).size d >>= fun _ ↦
            pure (.ofTag d.tag (σ.arenas (arenaOf d.tag)).size)) (σ.openType key d h) := by
  cases old : σ.typeIds.find? key with
  | some u => exact Or.inl ⟨u, rfl, fun r ↦ type_of_old old⟩
  | none =>
    refine Or.inr ?_
    cases found : g.types.find? key with
    | none => exact Or.inl ⟨_, fun r ↦ type_of_missing old found⟩
    | some d =>
      by_cases room : (σ.arenas (arenaOf d.tag)).size < 2 ^ 32
      · have empty : ((σ.addType key d.tag).arenas (arenaOf d.tag)).get?
            (σ.arenas (arenaOf d.tag)).size = some (Cell.empty _) := get?_extend_self σ _
        cases headed : header s d.info (σ.addType key d.tag) with
        | error halt =>
          refine Or.inl ⟨halt, fun r ↦ ?_⟩
          rw [type_of_new old found room, bind_apply, headed]
          rfl
        | ok p =>
          obtain ⟨h, σ₁⟩ := p
          obtain ⟨rfl, image⟩ := header_of_ok headed
          refine Or.inr ⟨d, h, rfl, rfl, image, fun r ↦ ?_⟩
          rw [type_of_new old found room, bind_apply, headed]
          change (write _ _ _ >>= _) _ = _
          rw [bind_apply, write_apply empty]
          rfl
      · exact Or.inl ⟨_, fun r ↦ type_of_full old found room⟩

theorem constant_cases (g : Graph) (s : Scope) (key : ValueKey) (σ : Site) :
    (∃ id, σ.constantIds.find? key = some id ∧ ∀ r, constant g s r key σ = .ok (id, σ)) ∨
      (∃ halt, ∀ r, constant g s r key σ = .error halt) ∨
      ∃ d, σ.constantIds.find? key = none ∧ g.values.find? key = some (.constant d) ∧
        ∀ r, constant g s r key σ =
          (constantOf g s r d >>= fun c ↦
            write .constants (σ.arenas .constants).size (fun _ ↦ some c) >>= fun _ ↦
              pure ⟨(σ.arenas .constants).size⟩) (σ.addConstant key) := by
  cases old : σ.constantIds.find? key with
  | some id => exact Or.inl ⟨id, rfl, fun r ↦ constant_of_old old⟩
  | none =>
    refine Or.inr ?_
    cases found : g.values.find? key with
    | none => exact Or.inl ⟨_, fun r ↦ constant_of_missing old found⟩
    | some d =>
      cases d with
      | enumerator d => exact Or.inl ⟨_, fun r ↦ constant_of_enumerator old found⟩
      | constant d =>
        by_cases room : (σ.arenas .constants).size < 2 ^ 32
        · exact Or.inr ⟨d, rfl, rfl, fun r ↦ constant_of_new old found room⟩
        · exact Or.inl ⟨_, fun r ↦ constant_of_full old found room⟩

theorem member_cases (s : Scope) (key : ValueKey) (d : Graph.Enumerator) (σ : Site) :
    (∃ id, σ.memberIds.find? key = some id ∧ ∀ r, member s r key d σ = .ok (id, σ)) ∨
      (∃ halt, ∀ r, member s r key d σ = .error halt) ∨
      (σ.memberIds.find? key = none ∧ (σ.arenas .members).size < 2 ^ 32) := by
  cases old : σ.memberIds.find? key with
  | some id => exact Or.inl ⟨id, rfl, fun r ↦ member_of_old old⟩
  | none =>
    refine Or.inr ?_
    by_cases room : (σ.arenas .members).size < 2 ^ 32
    · exact Or.inr ⟨rfl, room⟩
    · exact Or.inl ⟨_, fun r ↦ member_of_full old room⟩

/-! ## New declarations -/

theorem read_of_ok (h : read space i σ = .ok (x, σ')) :
    σ' = σ ∧ (σ.arenas space).get? i = some x := by
  cases node : (σ.arenas space).get? i with
  | none =>
    simp only [read, Arena.get, node] at h
    cases h
  | some y =>
    rw [read_apply node] at h
    obtain ⟨rfl, rfl⟩ := Prod.mk.inj (Except.ok.inj h)
    exact ⟨rfl, rfl⟩

theorem hasMember_put {d : Graph.Enumerator} {enum : EnumId} {e : Module.Enum}
    {c : Option Module.Member} (found : g.values.find? key = some (.enumerator d))
    (empty : (σ.arenas .members).get? i = some c)
    (cached : σ.typeIds.find? d.enum = some (.enum enum))
    (node : (σ.arenas .enums).get? enum.index = some e) :
    (σ.put .members i (some ⟨d.info.shortName, enum, e.owner, s.module.namespaceOf e.owner,
      e.parent?⟩)).HasMember g s key d ⟨i⟩ ⟨d.info.shortName, enum, e.owner,
        s.module.namespaceOf e.owner, e.parent?⟩ e where
  found := found
  node := get?_put_self empty
  name := rfl
  cached := cached
  enum := by
    refine (get?_put_of_ne σ _ ?_).trans node
    exact nofun
  owner := rfl
  moduleNamespace := rfl
  parent := Or.inr rfl

/-- A type that is new is open when its header is there. -/
theorem Site.ParentsKnown.opened (known : σ.ParentsKnown) (new : σ.typeIds.find? key = none)
    (d : TypeDecl) (h : Header) :
    (σ.openType key d h).Opened (arenaOf d.tag) (σ.arenas (arenaOf d.tag)).size
      (h.fillIn d (Cell.empty _)) := by
  have opened : (σ.addType key d.tag).Opened (arenaOf d.tag) (σ.arenas (arenaOf d.tag)).size
      (Cell.empty _) := ⟨get?_extend_self σ _, known.addType new d.tag, Site.knows_empty ..⟩
  exact opened.put (opened.knows.fillIn h)

section

variable (hr : r.Grows g s r')
include hr

/-- A type that is new has its node from the beginning, filled in as it is in the end. -/
theorem grows_of_new_type {d : TypeDecl} {h : Header} {u : UserType}
    (new : σ.typeIds.find? key = none) (found : g.types.find? key = some d)
    (header : HeaderImage s d.info h)
    (ran : (members g r (σ.arenas (arenaOf d.tag)).size d >>= fun _ ↦
      pure (.ofTag d.tag (σ.arenas (arenaOf d.tag)).size)) (σ.openType key d h) = .ok (u, σ')) :
    Growth g s σ σ' ∧ σ'.typeIds.find? key = some u := by
  have empty : ((σ.addType key d.tag).arenas (arenaOf d.tag)).get?
      (σ.arenas (arenaOf d.tag)).size = some (Cell.empty _) := get?_extend_self σ _
  obtain ⟨⟨⟩, σ₂, filled, ended⟩ := exists_of_bind_eq_ok ran
  obtain ⟨rfl, rfl⟩ := Prod.mk.inj (Except.ok.inj ended)
  have headed : ((σ.openType key d h).arenas (arenaOf d.tag)).get?
      (σ.arenas (arenaOf d.tag)).size = some (h.fillIn d (Cell.empty _)) := get?_put_self empty
  obtain ⟨x, furnished⟩ := (furnishes_members hr key d header).furnished headed filled
  -- The header is written over before anything else has been added.
  have growth := furnished.growth
  rw [Site.openType, put_put] at growth
  have cached := growth.kept.typeIds (Table.find?_insert_self σ.typeIds key
    (.ofTag d.tag (σ.arenas (arenaOf d.tag)).size))
  have complete : σ₂.HasType g s key d (σ.arenas (arenaOf d.tag)).size x :=
    { found
      node := growth.kept.get? (get?_put_self empty)
      image := furnished.image
      uses := fun names ↦ by
        have asks : Asks (requirementsOfTypeDecl key d) _ := asks_requirementsOfTypeDecl.mpr names
        rw [requirementsOfTypeDecl_eq, asks_cons] at asks
        exact furnished.uses (asks.resolve_left nofun) }
  exact ⟨growth.addType new ⟨d, _, x, rfl, Nat.le_refl _, complete⟩, cached⟩

theorem grows_of_new_constant {d : Graph.Constant} {id : ConstantId}
    (new : σ.constantIds.find? key = none) (found : g.values.find? key = some (.constant d))
    (ran : (constantOf g s r d >>= fun c ↦
        write .constants (σ.arenas .constants).size (fun _ ↦ some c) >>= fun _ ↦
          pure ⟨(σ.arenas .constants).size⟩) (σ.addConstant key) = .ok (id, σ')) :
    Growth g s σ σ' ∧ σ'.constantIds.find? key = some id := by
  obtain ⟨c, σ₁, resolved, ran⟩ := exists_of_bind_eq_ok ran
  have answered := (Answers.constantOf hr d).answered resolved
  have empty : ((σ.addConstant key).arenas .constants).get? (σ.arenas .constants).size =
      some (Cell.empty _) := get?_extend_self σ _
  have empty₁ := answered.growth.kept.get? empty
  obtain ⟨⟨⟩, σ₂, written, ended⟩ := exists_of_bind_eq_ok ran
  rw [write_apply empty₁] at written
  obtain ⟨-, rfl⟩ := Prod.mk.inj (Except.ok.inj written)
  obtain ⟨rfl, rfl⟩ := Prod.mk.inj (Except.ok.inj ended)
  have growth := answered.growth.put (y := some c) (lt_size_of_get? empty) empty₁ trivial
  have complete : (σ₁.put .constants (σ.arenas .constants).size (some c)).HasConstant g s key d
      ⟨(σ.arenas .constants).size⟩ c :=
    { found
      node := get?_put_self empty₁
      image := fun named ↦ answered.image named.of_put
      uses := fun names ↦ (answered.uses (asks_requirementsOfConstant.mpr names)).put }
  exact ⟨growth.addConstant new ⟨d, c, Nat.le_refl _, complete⟩,
    growth.kept.constantIds (Table.find?_insert_self ..)⟩

/-- An enum member is written last of all, with what its enum says then. -/
theorem grows_of_new_member {d : Graph.Enumerator} {id : MemberId}
    (new : σ.memberIds.find? key = none) (found : g.values.find? key = some (.enumerator d))
    (room : (σ.arenas .members).size < 2 ^ 32) (ran : member s r key d σ = .ok (id, σ')) :
    Growth g s σ σ' ∧ σ'.memberIds.find? key = some id := by
  rw [member_of_new new room] at ran
  obtain ⟨enum, σ₁, resolved, ran₁⟩ := exists_of_bind_eq_ok ran
  have answered := (Answers.typed hr .enum d.enum).answered resolved
  have empty : ((σ.addMember key).arenas .members).get? (σ.arenas .members).size =
      some (Cell.empty _) := get?_extend_self σ _
  have empty₁ := answered.growth.kept.get? empty
  obtain ⟨e, σ₂, looked, ran₂⟩ := exists_of_bind_eq_ok ran₁
  obtain ⟨⟨⟩, σ₃, written, ended⟩ := exists_of_bind_eq_ok ran₂
  obtain ⟨rfl, node⟩ := read_of_ok looked
  rw [write_apply empty₁] at written
  obtain ⟨-, rfl⟩ := Prod.mk.inj (Except.ok.inj written)
  obtain ⟨rfl, rfl⟩ := Prod.mk.inj (Except.ok.inj ended)
  have cached : σ₂.typeIds.find? d.enum = some (.enum enum) := by
    obtain ⟨ρ, named⟩ := exists_namedBy σ₂
    cases answered.uses (asks_singleton.mpr rfl) with
    | @type _ _ u cached _ =>
      have same : u = .enum enum := (named.type cached).symm.trans (answered.image named)
      rw [cached, same]
  have growth := fun m : Module.Member ↦
    answered.growth.put (y := some m) (lt_size_of_get? empty) empty₁ trivial
  exact ⟨(growth _).addMember new ⟨d, _, e, Nat.le_refl _, hasMember_put found empty₁ cached node⟩,
    (growth _).kept.memberIds (Table.find?_insert_self ..)⟩

end

/-! ## All declarations -/

section

variable (hr : r.Grows g s r')
include hr

theorem grows_of_type {u : UserType} (ran : type g s r key σ = .ok (u, σ')) :
    Growth g s σ σ' ∧ σ'.typeIds.find? key = some u := by
  rcases type_cases g s key σ with ⟨u', old, same⟩ | ⟨halt, same⟩ | ⟨d, h, new, found, header, same⟩
  · rw [same] at ran
    obtain ⟨rfl, rfl⟩ := Prod.mk.inj (Except.ok.inj ran)
    exact ⟨.refl _, old⟩
  · cases (same r).symm.trans ran
  · rw [same] at ran
    exact grows_of_new_type hr new found header ran

theorem grows_of_constant {id : ConstantId} (ran : constant g s r key σ = .ok (id, σ')) :
    Growth g s σ σ' ∧ σ'.constantIds.find? key = some id := by
  rcases constant_cases g s key σ with ⟨id', old, same⟩ | ⟨halt, same⟩ | ⟨d, new, found, same⟩
  · rw [same] at ran
    obtain ⟨rfl, rfl⟩ := Prod.mk.inj (Except.ok.inj ran)
    exact ⟨.refl _, old⟩
  · cases (same r).symm.trans ran
  · rw [same] at ran
    exact grows_of_new_constant hr new found ran

theorem grows_of_member {d : Graph.Enumerator} {id : MemberId}
    (found : g.values.find? key = some (.enumerator d))
    (ran : member s r key d σ = .ok (id, σ')) :
    Growth g s σ σ' ∧ σ'.memberIds.find? key = some id := by
  rcases member_cases s key d σ with ⟨id', old, same⟩ | ⟨halt, same⟩ | ⟨new, room⟩
  · rw [same] at ran
    obtain ⟨rfl, rfl⟩ := Prod.mk.inj (Except.ok.inj ran)
    exact ⟨.refl _, old⟩
  · cases (same r).symm.trans ran
  · exact grows_of_new_member hr new found room ran

/-! ### With the other resolver -/

theorem type_eq_type (known : σ.ParentsKnown) : type g s r' key σ = type g s r key σ := by
  rcases type_cases g s key σ with ⟨u, -, same⟩ | ⟨halt, same⟩ | ⟨d, h, new, -, header, same⟩
  · rw [same, same]
  · rw [same, same]
  · rw [same, same]
    have opened := known.opened new d h
    exact bind_eq_bind ((furnishes_members hr key d header).same opened) fun _ ↦ rfl

theorem constant_eq_constant (known : σ.ParentsKnown) :
    constant g s r' key σ = constant g s r key σ := by
  rcases constant_cases g s key σ with ⟨id, -, same⟩ | ⟨halt, same⟩ | ⟨d, new, -, same⟩
  · rw [same, same]
  · rw [same, same]
  · rw [same, same]
    exact bind_eq_bind ((Answers.constantOf hr d).same (known.addConstant new)) fun _ ↦ rfl

theorem member_eq_member {d : Graph.Enumerator} (known : σ.ParentsKnown) :
    member s r' key d σ = member s r key d σ := by
  rcases member_cases s key d σ with ⟨id, -, same⟩ | ⟨halt, same⟩ | ⟨new, room⟩
  · rw [same, same]
  · rw [same, same]
  · rw [member_of_new new room, member_of_new new room]
    exact bind_eq_bind ((Answers.typed hr .enum d.enum).same (known.addMember new)) fun _ ↦ rfl

/-- What finds declarations on one level more only adds to the site, too. -/
theorem grows_succ :
    Resolver.Grows g s ⟨type g s r, constant g s r, member s r⟩
      ⟨type g s r', constant g s r', member s r'⟩ where
  type := grows_of_type hr
  constant := grows_of_constant hr
  member := grows_of_member hr
  sameType := type_eq_type hr
  sameConstant := constant_eq_constant hr
  sameMember _ := member_eq_member hr

end

/-- What finds declarations only adds to the site, on every level. -/
theorem grows_resolver (g : Graph) (s : Scope) (n : Nat) :
    (resolver g s n).Grows g s (resolver g s n) := by
  induction n with
  | zero =>
    exact ⟨nofun, nofun, nofun, fun _ ↦ rfl, fun _ ↦ rfl, fun _ _ ↦ rfl⟩
  | succ n ih => exact grows_succ ih

end IdlLinker.Construction
