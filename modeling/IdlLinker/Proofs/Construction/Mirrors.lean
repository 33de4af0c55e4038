import IdlLinker.Proofs.Construction.Numbers

/-!
# What a site has of the visits

A construction and the walk look at the same declarations in the same order. Between two steps the
site *mirrors* the visits: every visited declaration has a node, at the position that is its number,
and its position is remembered under its key. This is what decides how a construction goes on.

Nothing is said here about what is in the nodes, since most of them are under construction, with one
exception: an enum member reads from its enum, so that the owner and the parent of each enum have to
be there. The node of an enum that was just added is excepted from this, until both are written.
-/

namespace IdlLinker.Construction

open IdlLinker.Graph IdlLinker.Link IdlLinker.Link.Numbering

variable {g : Graph} {s : Scope} {σ σ' : Site} {v v' : Visits} {space : Space} {key : String}
  {i : Nat} {x y : Cell space} {except? except'? : Option TypeKey}

/-! ## Changing a site -/

/-- The node of a key. -/
def Site.node? (σ : Site) (n : Numbering) (space : Space) (key : String) : Option (Cell space) :=
  (σ.arenas space).get? (n.number space key)

def Site.extend (σ : Site) (space : Space) (x : Cell space) : Site :=
  σ.setArena space ((σ.arenas space).alloc x).1

def Site.addType (σ : Site) (key : TypeKey) (tag : TypeTag) : Site :=
  { σ.extend (arenaOf tag) (Cell.empty _) with
    typeIds := σ.typeIds.insert key (.ofTag tag (σ.arenas (arenaOf tag)).size) }

def Site.addConstant (σ : Site) (key : ValueKey) : Site :=
  { σ.extend .constants (Cell.empty _) with
    constantIds := σ.constantIds.insert key ⟨(σ.arenas .constants).size⟩ }

def Site.addMember (σ : Site) (key : ValueKey) : Site :=
  { σ.extend .members (Cell.empty _) with
    memberIds := σ.memberIds.insert key ⟨(σ.arenas .members).size⟩ }

/-- The site with something else in a node. -/
def Site.put (σ : Site) (space : Space) (i : Nat) (x : Cell space) : Site :=
  σ.setArena space ⟨(σ.arenas space).items.set i x⟩

@[simp] theorem arenas_setArena_self (σ : Site) (space : Space) (a : Arena (Cell space)) :
    (σ.setArena space a).arenas space = a := Function.update_self ..

theorem arenas_setArena_of_ne (σ : Site) {space space' : Space} (a : Arena (Cell space))
    (h : space' ≠ space) : (σ.setArena space a).arenas space' = σ.arenas space' :=
  Function.update_of_ne h ..

theorem size_extend (σ : Site) (x : Cell space) (space' : Space) :
    ((σ.extend space x).arenas space').size =
      (σ.arenas space').size + if space' = space then 1 else 0 := by
  by_cases h : space' = space
  · subst h
    simp [Site.extend, Arena.alloc, Arena.size]
  · rw [Site.extend, arenas_setArena_of_ne _ _ h, if_neg h, Nat.add_zero]

theorem size_put (σ : Site) (x : Cell space) (space' : Space) :
    ((σ.put space i x).arenas space').size = (σ.arenas space').size := by
  by_cases h : space' = space
  · subst h
    simp [Site.put, Arena.size]
  · rw [Site.put, arenas_setArena_of_ne _ _ h]

theorem get?_extend (σ : Site) (x : Cell space) {space' : Space} {j : Nat}
    (h : j < (σ.arenas space').size) :
    ((σ.extend space x).arenas space').get? j = (σ.arenas space').get? j := by
  by_cases same : space' = space
  · subst same
    rw [Site.extend, arenas_setArena_self, Arena.get?_alloc_of_lt _ _ h]
  · rw [Site.extend, arenas_setArena_of_ne _ _ same]

theorem get?_extend_self (σ : Site) (x : Cell space) :
    ((σ.extend space x).arenas space).get? (σ.arenas space).size = some x := by
  rw [Site.extend, arenas_setArena_self]
  exact Arena.get?_alloc_self _ _

theorem get?_put_self (h : (σ.arenas space).get? i = some x) :
    ((σ.put space i y).arenas space).get? i = some y := by
  obtain ⟨inside, -⟩ := List.getElem?_eq_some_iff.mp h
  rw [Site.put, arenas_setArena_self, Arena.get?, List.getElem?_set_self inside]

theorem get?_put_of_ne (σ : Site) (y : Cell space) {space' : Space} {j : Nat}
    (h : space' = space → j ≠ i) :
    ((σ.put space i y).arenas space').get? j = (σ.arenas space').get? j := by
  by_cases same : space' = space
  · subst same
    rw [Site.put, arenas_setArena_self, Arena.get?, List.getElem?_set_ne (h rfl).symm]
    rfl
  · rw [Site.put, arenas_setArena_of_ne _ _ same]

/-! ## Mirrors -/

/-- What is read from the node of an enum while other nodes are built. -/
def placement : (space : Space) → Cell space → Option (Owner × Option UserType)
  | .enums, x => some (x.owner, x.parent?)
  | _, _ => none

/-- What is to be read there, for an enum that knows its parent if it is not among the unplaced. -/
def placementOf (n : Numbering) (unplaced : List TypeKey) (key : TypeKey) (d : Graph.Enum) :
    Owner × Option UserType :=
  (n.owner d.info.source?,
    if key ∈ unplaced then none else d.info.container?.map n.userType)

/-- An enum can be read. -/
def Ready (g : Graph) (s : Scope) (σ : Site) (v : Visits) (key : TypeKey) (d : Graph.Enum) :
    Prop :=
  ∃ x, σ.node? (ofVisits s v) .enums key = some x ∧ ∀ {w}, v.Precedes g w →
    placement .enums x = some (placementOf (ofVisits s w) v.unplaced key d)

/-- A site mirrors the visits of a walk. One enum may be excepted, whose placement is not known. -/
structure Mirrors (g : Graph) (s : Scope) (except? : Option TypeKey) (σ : Site) (v : Visits) :
    Prop where
  sound : v.Sound g
  /-- What is remembered of types is their numbers. -/
  typeIds : ∀ key, σ.typeIds.find? key =
    (v.types.find? key).map fun _ ↦ (ofVisits s v).userType key
  constantIds : ∀ key, σ.constantIds.find? key =
    (v.constants.find? key).map fun _ ↦ (ofVisits s v).constantId key
  memberIds : ∀ key, σ.memberIds.find? key =
    (v.members.find? key).map fun _ ↦ (ofVisits s v).memberId key
  /-- There are as many nodes as numbers. -/
  size : ∀ space, (σ.arenas space).size = ((ofVisits s v).keysIn space).length
  /-- Members may be looked up in every enum but the excepted one. -/
  enums : ∀ {key d}, v.types.find? key = some (.enum d) → except? ≠ some key → Ready g s σ v key d

/-- A key has a node at a position, and this is what is in it. -/
structure NodeAt (s : Scope) (space : Space) (key : String) (i : Nat) (x : Cell space) (σ : Site)
    (v : Visits) : Prop where
  listed : key ∈ (ofVisits s v).keysIn space
  number : (ofVisits s v).number space key = i
  node : (σ.arenas space).get? i = some x

theorem NodeAt.put (h : NodeAt s space key i x σ v) (y : Cell space) :
    NodeAt s space key i y (σ.put space i y) v :=
  ⟨h.listed, h.number, get?_put_self h.node⟩

theorem NodeAt.old (h : NodeAt s space key i x σ v) {space' : Space} {key' : String}
    (same : some (space, key) = some (space', key')) : key' ∈ (ofVisits s v).keysIn space' := by
  obtain ⟨rfl, rfl⟩ := Prod.mk.inj (Option.some.inj same)
  exact h.listed

theorem number_inj {key' : String}
    (listed : key ∈ (ofVisits s v).keysIn space)
    (same : (ofVisits s v).number space key = (ofVisits s v).number space key') : key = key' :=
  (List.idxOf_inj listed).mp same

theorem Mirrors.number_lt (h : Mirrors g s except? σ v)
    (listed : key ∈ (ofVisits s v).keysIn space) :
    (ofVisits s v).number space key < (σ.arenas space).size := by
  rw [h.size]
  exact Numbering.number_lt listed

/-- An enum that can be read can be read later, as long as its node stays and it is not placed or
unplaced. -/
theorem Ready.later {d : Graph.Enum} (h : Ready g s σ v key d) (precedes : v.Precedes g v')
    (listed : key ∈ (ofVisits s v).keysIn .enums)
    (kept : σ'.node? (ofVisits s v) .enums key = σ.node? (ofVisits s v) .enums key)
    (unplaced : key ∈ v'.unplaced ↔ key ∈ v.unplaced) : Ready g s σ' v' key d := by
  obtain ⟨x, node, reads⟩ := h
  refine ⟨x, ?_, fun {w} later ↦ ?_⟩
  · rw [Site.node?, precedes.number listed]
    exact kept.trans node
  · rw [reads (precedes.trans later), placementOf, placementOf]
    simp only [unplaced]

/-- Where only enums are left or come back to, the site stays as it is. -/
theorem Mirrors.adjust (h : Mirrors g s except? σ v) {unplaced : List TypeKey}
    {stray : List ValueKey} {events : List Log.Event}
    (left : ∀ {key}, key ∈ unplaced → key ∈ v.types.keys)
    (strays : ∀ {key}, key ∈ stray → key ∈ v.members.keys)
    (same : ∀ {key}, except'? ≠ some key →
      except? ≠ some key ∧ (key ∈ unplaced ↔ key ∈ v.unplaced)) :
    Mirrors g s except'? σ { v with unplaced, stray, events } where
  sound :=
    { h.sound with distinct := { h.sound.distinct with }, unplaced := left, stray := strays }
  typeIds := h.typeIds
  constantIds := h.constantIds
  memberIds := h.memberIds
  size := h.size
  enums {key d} visited other := by
    obtain ⟨other, unplaced⟩ := same other
    obtain ⟨x, node, reads⟩ := h.enums visited other
    refine ⟨x, node, fun {w} later ↦ ?_⟩
    rw [reads ⟨later.types, later.constants, later.members, later.sound⟩, placementOf, placementOf]
    simp only [unplaced]

theorem Mirrors.log (h : Mirrors g s except? σ v) (e : Log.Event) :
    Mirrors g s except? σ (v.log e) :=
  h.adjust h.sound.unplaced h.sound.stray fun other ↦ ⟨other, Iff.rfl⟩

/-- When the excepted enum can be read, no enum is excepted. -/
theorem Mirrors.close (h : Mirrors g s (some key) σ v)
    (ready : ∀ {d}, v.types.find? key = some (.enum d) → Ready g s σ v key d) :
    Mirrors g s none σ v := by
  refine { h with enums := fun {key' d} visited _ ↦ ?_ }
  by_cases same : key = key'
  · subst same
    exact ready visited
  · exact h.enums visited fun eq ↦ same (Option.some.inj eq)

theorem Mirrors.leave (h : Mirrors g s (some key) σ v) (listed : key ∈ v.types.keys) :
    Mirrors g s (some key) σ (v.leave key) := by
  refine h.adjust (fun {key'} left ↦ ?_) h.sound.stray fun {key'} other ↦ ⟨other, ?_⟩
  · rcases List.mem_cons.mp left with rfl | left
    · exact listed
    · exact h.sound.unplaced left
  · exact (List.mem_cons.trans (or_iff_right fun eq ↦ other (congrArg some eq.symm)))

theorem Mirrors.comeBack {rest : List TypeKey} (h : Mirrors g s none σ v)
    (last : v.unplaced = key :: rest) : Mirrors g s (some key) σ v.comeBack := by
  refine h.adjust (fun left ↦ h.sound.unplaced (List.mem_of_mem_drop left)) h.sound.stray
    fun {key'} other ↦ ⟨nofun, ?_⟩
  rw [last, List.drop_one, List.tail_cons, List.mem_cons, or_iff_right]
  exact fun eq ↦ other (congrArg some eq.symm)

theorem Mirrors.put (h : Mirrors g s except? σ v) (nodeAt : NodeAt s space key i x σ v)
    (y : Cell space) (keeps : placement space y = placement space x ∨ except? = some key) :
    Mirrors g s except? (σ.put space i y) v where
  sound := h.sound
  typeIds := h.typeIds
  constantIds := h.constantIds
  memberIds := h.memberIds
  size space' := (size_put ..).trans (h.size space')
  enums {key' d} visited other := by
    obtain ⟨x', node', reads⟩ := h.enums visited other
    by_cases same : space = .enums ∧ key = key'
    · -- The node is the one that is changed.
      obtain ⟨rfl, rfl⟩ := same
      rw [Site.node?, nodeAt.number, nodeAt.node] at node'
      obtain rfl := Option.some.inj node'
      refine ⟨y, ?_, fun {w} later ↦ ?_⟩
      · rw [Site.node?, nodeAt.number, get?_put_self nodeAt.node]
      · rw [keeps.resolve_right other]
        exact reads later
    · refine ⟨x', ?_, reads⟩
      rw [Site.node?, get?_put_of_ne]
      · exact node'
      · rintro rfl position
        exact same ⟨rfl, number_inj nodeAt.listed (nodeAt.number.trans position.symm)⟩

/-! ### New nodes -/

theorem Mirrors.number_of_adds (h : Mirrors g s except? σ v)
    (new : key ∉ (ofVisits s v).keysIn space) (adds : Visits.Adds g s space key v v') :
    (ofVisits s v').number space key = (σ.arenas space).size := by
  rw [number, adds.keysIn, if_pos rfl, List.idxOf_append_of_notMem new, h.size]
  simp

theorem Mirrors.nodeAt_new (h : Mirrors g s except? σ v)
    (new : key ∉ (ofVisits s v).keysIn space) (adds : Visits.Adds g s space key v v')
    (arenas : σ'.arenas = (σ.extend space x).arenas) :
    NodeAt s space key (σ.arenas space).size x σ' v' where
  listed := by
    rw [adds.keysIn, if_pos rfl]
    exact List.mem_append_right _ (List.mem_singleton_self _)
  number := h.number_of_adds new adds
  node := by
    rw [arenas]
    exact get?_extend_self σ x

/-- What is shared by the three ways in which a node is added. -/
theorem Mirrors.of_adds (h : Mirrors g s none σ v) (adds : Visits.Adds g s space key v v')
    (arenas : σ'.arenas = (σ.extend space x).arenas)
    (typeIds : ∀ key, σ'.typeIds.find? key =
      (v'.types.find? key).map fun _ ↦ (ofVisits s v').userType key)
    (constantIds : ∀ key, σ'.constantIds.find? key =
      (v'.constants.find? key).map fun _ ↦ (ofVisits s v').constantId key)
    (memberIds : ∀ key, σ'.memberIds.find? key =
      (v'.members.find? key).map fun _ ↦ (ofVisits s v').memberId key)
    (old : ∀ {key d}, v'.types.find? key = some (.enum d) → except? ≠ some key →
      v.types.find? key = some (.enum d)) : Mirrors g s except? σ' v' where
  sound := adds.precedes.sound
  typeIds := typeIds
  constantIds := constantIds
  memberIds := memberIds
  size space' := by
    rw [arenas, size_extend, h.size, adds.keysIn, List.length_append]
    split <;> rfl
  enums {key' d} visited other := by
    -- An enum that was there before the new node is read as before.
    have visited' := old visited other
    have listed := mem_keysIn_arenaOf (s := s) h.sound.distinct visited'
    refine (h.enums visited' nofun).later adds.precedes listed ?_ (by rw [adds.unplaced])
    rw [Site.node?, arenas]
    exact get?_extend _ _ (h.number_lt listed)

theorem Mirrors.addType (h : Mirrors g s none σ v) {d : TypeDecl}
    (new : v.types.find? key = none) (found : g.types.find? key = some d) :
    Mirrors g s (some key) (σ.addType key d.tag) (v.visitType key d) := by
  have adds := adds_visitType (s := s) h.sound new found
  have fresh : key ∉ (ofVisits s v).keysIn (arenaOf d.tag) := by
    rw [keysIn_arenaOf, mem_keysOf_iff h.sound.distinct, new]
    simp
  have visited : (v.visitType key d).types.find? key = some d := Table.find?_insert_self ..
  have stored : UserType.ofTag d.tag (σ.arenas (arenaOf d.tag)).size =
      (ofVisits s (v.visitType key d)).userType key := by
    rw [userType_eq adds.precedes.sound.distinct visited, h.number_of_adds fresh adds]
  refine h.of_adds adds rfl ?_ h.constantIds h.memberIds fun {key' d'} visited other ↦ ?_
  · exact Table.find?_insert_map h.typeIds stored (adds.precedes.userType h.sound)
  · rcases Table.of_find?_insert visited with ⟨rfl, -⟩ | visited
    · exact absurd rfl other
    · exact visited

theorem Mirrors.addConstant (h : Mirrors g s none σ v) {d : Graph.Constant}
    (new : v.constants.find? key = none) (found : g.values.find? key = some (.constant d)) :
    Mirrors g s none (σ.addConstant key) (v.visitConstant key d) := by
  have adds := adds_visitConstant (s := s) h.sound new found
  have fresh : key ∉ (ofVisits s v).keysIn .constants := Table.find?_eq_none_iff.mp new
  have stored : (⟨(σ.arenas .constants).size⟩ : ConstantId) =
      (ofVisits s (v.visitConstant key d)).constantId key :=
    congrArg Id.mk (h.number_of_adds fresh adds).symm
  refine h.of_adds adds rfl h.typeIds ?_ h.memberIds fun visited _ ↦ visited
  refine Table.find?_insert_map h.constantIds stored fun visited ↦ ?_
  have listed : _ ∈ (ofVisits s v).keysIn .constants := Table.mem_keys_iff.mpr ⟨_, visited⟩
  exact congrArg Id.mk (adds.precedes.number listed)

theorem Mirrors.addMember (h : Mirrors g s none σ v) {d : Graph.Enumerator}
    (new : v.members.find? key = none) (found : g.values.find? key = some (.enumerator d)) :
    Mirrors g s none (σ.addMember key) (v.visitMember key d) := by
  have adds := adds_visitMember (s := s) h.sound new found
  have fresh : key ∉ (ofVisits s v).keysIn .members := Table.find?_eq_none_iff.mp new
  have stored : (⟨(σ.arenas .members).size⟩ : MemberId) =
      (ofVisits s (v.visitMember key d)).memberId key :=
    congrArg Id.mk (h.number_of_adds fresh adds).symm
  refine h.of_adds adds rfl h.typeIds h.constantIds ?_ fun visited _ ↦ visited
  refine Table.find?_insert_map h.memberIds stored fun visited ↦ ?_
  have listed : _ ∈ (ofVisits s v).keysIn .members := Table.mem_keys_iff.mpr ⟨_, visited⟩
  exact congrArg Id.mk (adds.precedes.number listed)

end IdlLinker.Construction
