import IdlLinker.Proofs.Construction.Parts

/-!
# The nodes of declarations

The node of a type is there before its members are, and is filled in piece by piece. `Fills` says of
a piece that it changes the node of a key, and nothing else that was there, to what the assembly
makes of the node's previous contents; pieces that follow each other compose.

An enum needs more care than the others. Its members read its owner and its parent, and may do so
while the enum is under construction. On the way to its container an enum has no parent yet, and the
walk says so too (it is *unplaced*); when the way is over, its parent is written, and only then may
its members be looked at (`follows_parent`).
-/

namespace IdlLinker.Construction

open IdlLinker.Graph IdlLinker.Link IdlLinker.Link.Numbering

variable {g : Graph} {s : Scope} {σ σ' : Site} {v v' w : Visits} {space : Space}
  {key : String} {i n : Nat} {x y : Cell space} {rs rs' : List Requirement} {r : Resolver}

/-! ## Writing the open node -/

theorem write_apply (h : (σ.arenas space).get? i = some x) (f : Cell space → Cell space) :
    write space i f σ = .ok ((), σ.put space i (f x)) := by
  simp only [write, Arena.modify, Arena.get, h]
  rfl

theorem read_apply (h : (σ.arenas space).get? i = some x) : read space i σ = .ok (x, σ) := by
  simp only [read, Arena.get, h]

/-- A part of a construction fills in the node of a key: what is in it then is a function of what
was in it before, and of any later numbering. -/
structure Fills (g : Graph) (s : Scope) (n : Nat) (space : Space) (key : String) (i : Nat)
    (c : Build Unit) (rs : List Requirement) (f : Numbering → Cell space → Cell space) : Prop where
  follows : ∀ {σ v x}, Mirrors g s none σ v → unvisited g v < n → NodeAt s space key i x σ v →
    Follows g s (some (space, key)) (rs.map .meet) σ v
      (fun _ σ' v' ↦ ∃ x', NodeAt s space key i x' σ' v' ∧
        ∀ {w}, v'.Precedes g w → x' = f (ofVisits s w) x) (c σ)

namespace Fills

variable {α : Type} {c : Build α} {c₁ c₂ : Build Unit} {get : Numbering → α}
  {f₁ f₂ : Numbering → Cell space → Cell space}

theorem write (space : Space) (h : Resolves g s n c rs get) (f : α → Cell space → Cell space)
    (keeps : ∀ a x, placement space (f a x) = placement space x) :
    Fills g s n space key i (c >>= fun a ↦ Construction.write space i (f a)) rs
      fun m x ↦ f (get m) x := by
  refine ⟨fun {σ v x} mirrors bound nodeAt ↦ ?_⟩
  have resolved : Follows g s none (rs.map .meet) σ v (fun a σ' v' ↦
      NodeAt s space key i x σ' v' ∧ ∀ {w}, v'.Precedes g w → a = get (ofVisits s w)) (c σ) :=
    (h.follows mirrors bound).mono fun _ _ advances result ↦ ⟨nodeAt.later advances, result⟩
  rw [← List.append_nil (rs.map Task.meet)]
  refine resolved.within.bind nodeAt.old fun {a σ' v'} _ mirrors' _ ⟨at', result⟩ ↦ ?_
  rw [write_apply at'.node]
  refine .done .refl (mirrors'.put at' _ (Or.inl (keeps a x))) (.put mirrors'.sound at' _)
    ⟨f a x, at'.put _, fun later ↦ ?_⟩
  rw [result later]

theorem andThen (h₁ : Fills g s n space key i c₁ rs f₁) (h₂ : Fills g s n space key i c₂ rs' f₂) :
    Fills g s n space key i (c₁ >>= fun _ ↦ c₂) (rs ++ rs') fun m x ↦ f₂ m (f₁ m x) := by
  refine ⟨fun {σ v x} mirrors bound nodeAt ↦ ?_⟩
  rw [List.map_append]
  refine (h₁.follows mirrors bound nodeAt).bind nodeAt.old fun run mirrors' _ ⟨x', at', first⟩ ↦ ?_
  have less := (unvisited_le run).trans_lt bound
  refine (h₂.follows mirrors' less at').mono fun _ _ advances ⟨x'', at'', second⟩ ↦ ?_
  refine ⟨x'', at'', fun {w} later ↦ ?_⟩
  rw [second later, first (advances.precedes.trans later)]

end Fills

/-! ## The members of a type -/

section

variable (hr : r.Sound g s n)
include hr

theorem Fills.struct (d : Graph.Struct) :
    Fills g s n .structs key i (members g r i (.struct d))
      (d.fields.flatMap (fun f ↦ requirementsOfDefault f.default? ++ requirementsOfType f.type) ++
        requirementsOfContained d.info)
      fun m (x : Module.Struct) ↦
        { x with
          fields := (m.struct d).fields
          enums := (m.struct d).enums
          constants := (m.struct d).constants } := by
  have fields : Fills g s n .structs key i _ _ _ :=
    .write .structs (.mapM (Resolves.structField hr) d.fields)
      (fun fields (x : Module.Struct) ↦ { x with fields }) fun _ _ ↦ rfl
  have nested : Fills g s n .structs key i _ _ _ :=
    .write .structs (Resolves.contained hr d.info)
      (fun nested (x : Module.Struct) ↦ { x with enums := nested.1, constants := nested.2 })
      fun _ _ ↦ rfl
  have both := fields.andThen nested
  rw [bind_assoc] at both
  exact both

theorem Fills.union (d : Graph.Union) :
    Fills g s n .unions key i (members g r i (.union d))
      (d.fields.flatMap fun f ↦ requirementsOfType f.type)
      fun m (x : Module.Union) ↦ { x with fields := (m.union d).fields } :=
  .write .unions (.mapM (Resolves.unionField hr) d.fields)
    (fun fields (x : Module.Union) ↦ { x with fields }) fun _ _ ↦ rfl

theorem Fills.enumerators (d : Graph.Enum) :
    Fills g s n .enums key i
      (d.values.mapM (enumerator g r) >>= fun fields ↦
        Construction.write .enums i fun x ↦ { x with fields })
      (d.values.flatMap fun v ↦ v.initializer?.toList.flatMap requirementsOfValue)
      fun m (x : Module.Enum) ↦ { x with fields := (m.enum d).fields } :=
  .write .enums (.mapM (Resolves.enumerator hr) d.values)
    (fun fields (x : Module.Enum) ↦ { x with fields }) fun _ _ ↦ rfl

theorem Fills.interface (d : Graph.Interface) :
    Fills g s n .interfaces key i (members g r i (.interface d))
      (d.methods.entries.flatMap (fun m ↦ requirementsOfMethod m.2) ++
        requirementsOfContained d.info)
      fun m (x : Module.Interface) ↦
        { x with
          methods := (m.interface d).methods
          enums := (m.interface d).enums
          constants := (m.interface d).constants } := by
  have methods : Fills g s n .interfaces key i _ _ _ :=
    .write .interfaces (.mapM (fun m ↦ Resolves.method hr m.2) d.methods.entries)
      (fun methods (x : Module.Interface) ↦ { x with methods }) fun _ _ ↦ rfl
  have nested : Fills g s n .interfaces key i _ _ _ :=
    .write .interfaces (Resolves.contained hr d.info)
      (fun nested (x : Module.Interface) ↦ { x with enums := nested.1, constants := nested.2 })
      fun _ _ ↦ rfl
  have both := methods.andThen nested
  rw [bind_assoc] at both
  exact both

end

/-! ## The parent of an enum -/

section

variable {d : Graph.Enum} {x : Module.Enum}

/-- An enum can be read when its owner and its parent are written down, as far as it is placed. -/
theorem Mirrors.place (h : Mirrors g s (some key) σ v)
    (visited : v.types.find? key = some (.enum d)) (nodeAt : NodeAt s .enums key i x σ v)
    (owner : ∀ w, x.owner = (ofVisits s w).owner d.info.source?)
    (parent : ∀ {w}, v.Precedes g w → x.parent? =
      if key ∈ v.unplaced then none else d.info.container?.map (ofVisits s w).userType) :
    Mirrors g s none σ v := by
  refine h.close fun {d'} visited' ↦ ?_
  obtain rfl := TypeDecl.enum.inj (Option.some.inj (visited.symm.trans visited'))
  refine ⟨x, ?_, fun {w} later ↦ ?_⟩
  · rw [Site.node?, nodeAt.number]
    exact nodeAt.node
  · rw [placement, placementOf, owner w, parent later]

/-- The walk leaves an enum for its container and comes back, and the construction writes down what
it finds there. -/
theorem follows_container (hr : r.Sound g s n) (mirrors : Mirrors g s (some key) σ v)
    (bound : unvisited g v < n) (nodeAt : NodeAt s .enums key i x σ v)
    (visited : v.types.find? key = some (.enum d)) (placed : key ∉ v.unplaced)
    (owner : ∀ w, x.owner = (ofVisits s w).owner d.info.source?) (parent : x.parent? = none)
    {c : TypeKey} (container : d.info.container? = some c) :
    Follows g s (some (.enums, key)) [.meet (.container key c)] σ v
      (fun _ σ' v' ↦ ∃ x', NodeAt s .enums key i x' σ' v' ∧ ∀ {w}, v'.Precedes g w →
        x' = { x with parent? := some ((ofVisits s w).userType c) })
      ((r.type c >>= fun u ↦
        Construction.write .enums i fun x ↦ { x with parent? := some u }) σ) := by
  -- While the enum is left it has no parent, and it can be read as such.
  have leaving : NodeAt s .enums key i x σ (v.leave key) := ⟨nodeAt.listed, nodeAt.number, nodeAt.node⟩
  have left : Mirrors g s none σ (v.leave key) :=
    (mirrors.leave (Table.mem_keys_iff.mpr ⟨_, visited⟩)).place visited leaving owner
      fun _ ↦ parent.trans (if_pos List.mem_cons_self).symm
  have way := (hr.type c).follows left bound
  rw [bind_apply]
  generalize r.type c σ = outcome at way
  cases way with
  | refused run failed => exact .refused (.head .container (run.append [.placed])) failed
  | @done u σ' v' run mirrors' advances result =>
    have there : NodeAt s .enums key i x σ' v' := leaving.later advances
    have at' : NodeAt s .enums key i x σ' v'.comeBack := ⟨there.listed, there.number, there.node⟩
    have written := at'.put { x with parent? := some u }
    have back := mirrors'.comeBack advances.unplaced
    have visited' : v'.comeBack.types.find? key = some (.enum d) :=
      Table.find?_of_prefix advances.precedes.types visited
    have still : key ∉ v'.comeBack.unplaced := by
      change key ∉ v'.unplaced.drop 1
      rw [advances.unplaced]
      exact placed
    have found : ∀ {w}, v'.comeBack.Precedes g w → u = (ofVisits s w).userType c :=
      fun later ↦ result ⟨later.types, later.constants, later.members, later.sound⟩
    change Follows g s _ [.meet (.container key c)] σ v _
      (Construction.write .enums i (fun x ↦ { x with parent? := some u }) σ')
    rw [write_apply at'.node]
    refine .done (.head .container ((run.append [.placed]).tail .placed)) ?_ ?_
      ⟨_, written, fun later ↦ ?_⟩
    · refine (back.put at' _ (Or.inr rfl)).place visited' written owner fun later ↦ ?_
      rw [if_neg still, container, Option.map_some, found later]
    · exact advances.mono.comeBack.trans (.put back.sound at' _) nodeAt.old
    · rw [found later]

/-- An enum is placed in its container, if it has one. From then on the enum can be read. -/
theorem follows_parent (hr : r.Sound g s n) (mirrors : Mirrors g s (some key) σ v)
    (bound : unvisited g v < n) (nodeAt : NodeAt s .enums key i x σ v)
    (visited : v.types.find? key = some (.enum d)) (placed : key ∉ v.unplaced)
    (owner : ∀ w, x.owner = (ofVisits s w).owner d.info.source?) (parent : x.parent? = none) :
    Follows g s (some (.enums, key)) ((d.info.container?.toList.map (.container key)).map .meet) σ v
      (fun _ σ' v' ↦ ∃ x', NodeAt s .enums key i x' σ' v' ∧ ∀ {w}, v'.Precedes g w →
        x' = { x with parent? := ((ofVisits s w).enum d).parent? })
      ((Construction.parent r d.info >>= fun parent? ↦
        Construction.write .enums i fun x ↦ { x with parent? }) σ) := by
  simp only [Construction.parent, Numbering.enum]
  cases container : d.info.container? with
  | none =>
    change Follows g s _ [] σ v _ (Construction.write .enums i _ σ)
    rw [write_apply nodeAt.node]
    have written := nodeAt.put { x with parent? := none }
    refine .done .refl ?_ (.put mirrors.sound nodeAt _) ⟨_, written, fun _ ↦ rfl⟩
    refine (mirrors.put nodeAt _ (Or.inr rfl)).place visited written owner fun _ ↦ ?_
    rw [container, Option.map_none, ite_self]
  | some c =>
    dsimp only
    rw [bind_assoc]
    exact follows_container hr mirrors bound nodeAt visited placed owner parent container

end

/-! ## The node of a type -/

section

/-- The header of a type, as a numbering has it. -/
def headerOf (m : Numbering) (d : Info) : Header :=
  ⟨d.shortName, d.fullName?.getD d.shortName, m.owner d.source?, attributesOf d.attributes?⟩

theorem NodeAt.agrees (h : NodeAt s space key i x σ v) (later : v.Precedes g w)
    (same : ((ofVisits s w).arena space).get? ((ofVisits s w).number space key) = some x) :
    σ.Agrees (ofVisits s w) space key := by
  rw [Site.Agrees, same, Site.node?, later.number h.listed, h.number, h.node]

theorem Fills.agrees {c : Build Unit} {rs : List Requirement}
    {f : Numbering → Cell space → Cell space} (h : Fills g s n space key i c rs f)
    (mirrors : Mirrors g s none σ v) (bound : unvisited g v < n)
    (nodeAt : NodeAt s space key i x σ v)
    (same : ∀ {w}, v.Precedes g w →
      ((ofVisits s w).arena space).get? ((ofVisits s w).number space key) =
        some (f (ofVisits s w) x)) :
    Follows g s (some (space, key)) (rs.map .meet) σ v
      (fun _ σ' v' ↦ ∀ {w}, v'.Precedes g w → σ'.Agrees (ofVisits s w) space key) (c σ) := by
  refine (h.follows mirrors bound nodeAt).mono fun _ _ advances ⟨x', at', result⟩ w later ↦ ?_
  refine at'.agrees later ?_
  rw [result later]
  exact same (advances.precedes.trans later)

/-- What a type requires apart from its source file. -/
def requirementsOfMembers (key : TypeKey) (d : TypeDecl) : List Requirement :=
  (requirementsOfTypeDecl key d).tail

theorem requirementsOfTypeDecl_eq (key : TypeKey) (d : TypeDecl) :
    requirementsOfTypeDecl key d = requirementOfSource d.info :: requirementsOfMembers key d := by
  cases d <;> rfl

/-- **The members of a type are filled in** when its header is there, and then the node is what the
assembly makes of it. -/
theorem follows_members (hr : r.Sound g s n) {d : TypeDecl} {h : Header}
    (mirrors : Mirrors g s (some key) σ v) (bound : unvisited g v < n)
    (nodeAt : NodeAt s (arenaOf d.tag) key i (h.fillIn d (Cell.empty _)) σ v)
    (visited : v.types.find? key = some d) (placed : key ∉ v.unplaced)
    (header : ∀ w, h = headerOf (ofVisits s w) d.info) :
    Follows g s (some (arenaOf d.tag, key)) ((requirementsOfMembers key d).map .meet) σ v
      (fun _ σ' v' ↦ ∀ {w}, v'.Precedes g w → σ'.Agrees (ofVisits s w) (arenaOf d.tag) key)
      (members g r i d σ) := by
  have readable : (∀ d', d ≠ .enum d') → Mirrors g s none σ v := fun other ↦
    mirrors.close fun visited' ↦ absurd (Option.some.inj (visited.symm.trans visited')) (other _)
  cases d with
  | struct d =>
    refine (Fills.struct hr d).agrees (readable nofun) bound nodeAt fun {w} later ↦ ?_
    rw [header w]
    exact get?_map_values _ ((find?_structs_iff later.sound.distinct).mpr
      (Table.find?_of_prefix later.types visited))
  | union d =>
    refine (Fills.union hr d).agrees (readable nofun) bound nodeAt fun {w} later ↦ ?_
    rw [header w]
    exact get?_map_values _ ((find?_unions_iff later.sound.distinct).mpr
      (Table.find?_of_prefix later.types visited))
  | enum d =>
    have owner : ∀ w, h.owner = (ofVisits s w).owner d.info.source? := fun w ↦ by rw [header w]; rfl
    have parent := follows_parent hr mirrors bound nodeAt visited placed owner rfl
    have requirements : (requirementsOfMembers key (.enum d)).map Task.meet =
        (d.info.container?.toList.map (.container key)).map .meet ++
          (d.values.flatMap fun v ↦ v.initializer?.toList.flatMap requirementsOfValue).map .meet :=
      List.map_append
    rw [requirements, members, ← bind_assoc]
    refine parent.bind nodeAt.old fun {_ σ' v'} run mirrors' advances ⟨y, at', first⟩ ↦ ?_
    have less := (unvisited_le run).trans_lt bound
    refine (Fills.enumerators hr d).agrees mirrors' less at' fun {w} later ↦ ?_
    have precedes := advances.precedes.trans later
    rw [first later, header w]
    exact get?_map_values _ ((find?_enums_iff precedes.sound.distinct).mpr
      (Table.find?_of_prefix precedes.types visited))
  | interface d =>
    refine (Fills.interface hr d).agrees (readable nofun) bound nodeAt fun {w} later ↦ ?_
    rw [header w]
    exact get?_map_values _ ((find?_interfaces_iff later.sound.distinct).mpr
      (Table.find?_of_prefix later.types visited))

end

end IdlLinker.Construction
