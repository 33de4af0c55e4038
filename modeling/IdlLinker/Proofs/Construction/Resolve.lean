import IdlLinker.Proofs.Construction.Nodes

/-!
# Finding declarations

A declaration that is asked for is old, new or missing, and the construction and the walk agree on
which it is. If it is old, its position is remembered. If it is new, it gets a node at the next free
position, for which there is room as long as the graph has no more declarations than there are
positions; then its parts are resolved, and its node is complete at the end.

What finds the declarations one level down is assumed to follow the walk, when less is left to visit
than the number of its levels. Since each declaration that is new leaves less to visit, the
induction on the levels goes through (`sound_resolver`).
-/

namespace IdlLinker.Construction

open IdlLinker.Graph IdlLinker.Link IdlLinker.Link.Numbering

variable {g : Graph} {s : Scope} {σ σ' σ'' : Site} {v v' v'' w : Visits} {space : Space}
  {key : String} {i n : Nat} {x : Cell space} {r : Resolver}

/-! ## Room -/

/-- The number of declarations of a graph that have their nodes in an arena, at most. -/
def capacity (g : Graph) : Space → Nat
  | .constants => g.values.size
  | .members => g.values.size
  | _ => g.types.size

theorem length_keysIn_le (hv : v.Sound g) (space : Space) :
    ((ofVisits s v).keysIn space).length ≤ capacity g space := by
  have types : ∀ tag, ((ofVisits s v).keysOf tag).length ≤ g.types.size := by
    intro tag
    refine Table.length_le_size (nodup_keysOf hv.distinct) fun key hk ↦ ?_
    obtain ⟨d, visited, -⟩ := (mem_keysOf_iff hv.distinct).mp hk
    exact ⟨d, hv.types visited⟩
  cases space with
  | structs => exact types .struct
  | unions => exact types .union
  | enums => exact types .enum
  | interfaces => exact types .interface
  | constants =>
    refine Table.length_le_size hv.distinct.constants fun key hk ↦ ?_
    obtain ⟨d, visited⟩ := Table.mem_keys_iff.mp hk
    exact ⟨_, hv.constants visited⟩
  | members =>
    refine Table.length_le_size hv.distinct.members fun key hk ↦ ?_
    obtain ⟨d, visited⟩ := Table.mem_keys_iff.mp hk
    exact ⟨_, hv.members visited⟩

/-- There is a position for every declaration. -/
def Roomy (g : Graph) : Prop := ∀ space, capacity g space ≤ 2 ^ 32

theorem roomy_of_le (types : g.types.size ≤ 2 ^ 32) (values : g.values.size ≤ 2 ^ 32) :
    Roomy g := by
  intro space
  cases space <;> assumption

theorem allocate_apply (h : (σ.arenas space).size < 2 ^ 32) :
    allocate space σ = .ok ((σ.arenas space).size, σ.extend space (Cell.empty space)) :=
  if_pos h

theorem Mirrors.room (h : Mirrors g s none σ v) (roomy : Roomy g)
    (adds : Visits.Adds g s space key v v') : (σ.arenas space).size < 2 ^ 32 := by
  have bound := (length_keysIn_le (s := s) adds.precedes.sound space).trans (roomy space)
  rw [adds.keysIn, if_pos rfl, List.length_append, List.length_singleton, ← h.size] at bound
  exact bound

/-! ## A declaration that is new -/

theorem Follows.enclose {α : Type} {task : Task} {front : List Task}
    {post : α → Site → Visits → Prop} {outcome : Except Halt (α × Site)}
    (mirrors : Mirrors g s none σ v) (first : Turn g s task v front v')
    (adds : Visits.Adds g s space key v v') (new : key ∉ (ofVisits s v).keysIn space)
    (kept : ∀ {space' j}, j < (σ.arenas space').size →
      (σ'.arenas space').get? j = (σ.arenas space').get? j)
    (inner : Follows g s (some (space, key)) front σ' v' post outcome)
    (complete : ∀ {a σ'' v''}, Advances g s (some (space, key)) σ' v' σ'' v'' → post a σ'' v'' →
      ∀ {w}, Later g v v'' w → σ''.Agrees (ofVisits s w) space key) :
    Follows g s none [task] σ v post outcome := by
  cases inner with
  | refused run failed =>
    exact .refused (.head first ((List.append_nil front).symm ▸ run)) failed
  | done run mirrors' advances result =>
    exact .done (.head first ((List.append_nil front).symm ▸ run)) mirrors'
      (.enclose adds kept mirrors.size advances (complete advances result) new) result

/-- A task that is done at once may come first. -/
theorem Follows.head {α : Type} {opened : Option (Space × String)} {task : Task} {rest : List Task}
    {post : α → Site → Visits → Prop} {outcome : Except Halt (α × Site)}
    (first : Turn g s task v [] v) (inner : Follows g s opened rest σ v post outcome) :
    Follows g s opened (task :: rest) σ v post outcome := by
  cases inner with
  | refused run failed => exact .refused (.head first run) failed
  | done run mirrors advances result => exact .done (.head first run) mirrors advances result

/-! ## Types -/

theorem type_of_old {u : UserType} (old : σ.typeIds.find? key = some u) :
    type g s r key σ = .ok (u, σ) := by
  rw [type, bind_apply]
  change Except.bind (Except.ok (σ, σ)) _ = _
  simp only [Except.bind, old]
  rfl

theorem type_of_missing (new : σ.typeIds.find? key = none) (missing : g.types.find? key = none) :
    type g s r key σ = .error (.refused (.missingType key)) := by
  rw [type, bind_apply]
  change Except.bind (Except.ok (σ, σ)) _ = _
  simp only [Except.bind, new, missing]
  rfl

theorem type_of_new {d : TypeDecl} (new : σ.typeIds.find? key = none)
    (found : g.types.find? key = some d) (room : (σ.arenas (arenaOf d.tag)).size < 2 ^ 32) :
    type g s r key σ =
      (header s d.info >>= fun h ↦
        write (arenaOf d.tag) (σ.arenas (arenaOf d.tag)).size (h.fillIn d) >>= fun _ ↦
          members g r (σ.arenas (arenaOf d.tag)).size d >>= fun _ ↦
            pure (.ofTag d.tag (σ.arenas (arenaOf d.tag)).size))
        (σ.addType key d.tag) := by
  rw [type, bind_apply]
  change Except.bind (Except.ok (σ, σ)) _ = _
  simp only [Except.bind, new, found]
  rw [bind_apply, allocate_apply room]
  rfl

theorem header_cases (s : Scope) (d : Info) :
    (∃ h, s.sourceError? d.shortName d.source? = none ∧ header s d = pure h ∧
        ∀ v, h = headerOf (ofVisits s v) d) ∨
      ∃ e, s.sourceError? d.shortName d.source? = some e ∧ header s d = refuse e := by
  rcases owner_cases s d with ⟨o, known, same, result⟩ | ⟨e, failed, same⟩
  · refine Or.inl ⟨⟨d.shortName, d.fullName?.getD d.shortName, o, attributesOf d.attributes?⟩,
      known, ?_, fun v ↦ ?_⟩
    · rw [header, same]
      exact pure_bind ..
    · rw [result v]
      rfl
  · refine Or.inr ⟨e, failed, ?_⟩
    rw [header, same]
    rfl

/-- A type that is new gets its node, which is filled in when its members are found. -/
theorem follows_new_type (roomy : Roomy g) (hr : r.Sound g s n) {d : TypeDecl}
    (mirrors : Mirrors g s none σ v) (bound : unvisited g v < n + 1)
    (new : v.types.find? key = none) (found : g.types.find? key = some d) :
    Follows g s none [.meet (.type key none)] σ v
      (fun u σ' v' ↦ (∀ {w}, v'.Precedes g w → u = (ofVisits s w).userType key) ∧
        ∀ {w}, v'.Precedes g w → σ'.Agrees (ofVisits s w) (arenaOf d.tag) key)
      (type g s r key σ) := by
  have adds := adds_visitType (s := s) mirrors.sound new found
  have room := mirrors.room roomy adds
  have fresh : key ∉ (ofVisits s v).keysIn (arenaOf d.tag) := by
    rw [keysIn_arenaOf, mem_keysOf_iff mirrors.sound.distinct, new]
    simp
  have visited : (v.visitType key d).types.find? key = some d := Table.find?_insert_self ..
  have entered := mirrors.addType new found
  have empty : NodeAt s (arenaOf d.tag) key (σ.arenas (arenaOf d.tag)).size (Cell.empty _)
      (σ.addType key d.tag) (v.visitType key d) := mirrors.nodeAt_new fresh adds rfl
  have turn : Turn g s (.meet (.type key none)) v ((requirementsOfTypeDecl key d).map .meet ++
      .typeDone key d.tag :: checks key none d.tag) (v.visitType key d) := .typeNew new found
  rw [requirementsOfTypeDecl_eq] at turn
  rw [type_of_new (by rw [mirrors.typeIds, new]; rfl) found room]
  rcases header_cases s d.info with ⟨h, known, same, result⟩ | ⟨e, failed, same⟩
  · -- From here on the node is open, and its header can be read by whatever leads back to it.
    rw [same, pure_bind, bind_apply, write_apply empty.node]
    have headed := empty.put (h.fillIn d (Cell.empty _))
    have mirrors' := entered.put empty (h.fillIn d (Cell.empty _)) (Or.inr rfl)
    have less : unvisited g (v.visitType key d) < n :=
      (unvisited_visitType_lt new found).trans_le (Nat.le_of_lt_succ bound)
    have placed : key ∉ v.unplaced := fun left ↦
      Table.find?_eq_none_iff.mp new (mirrors.sound.unplaced left)
    have filled := follows_members hr mirrors' less headed visited placed result
    refine .enclose mirrors turn adds fresh (fun {space' j} inside ↦ ?_)
      (.head (.source known) (filled.bind headed.old fun {_ σ' v'} _ mirrors'' advances agrees ↦
        .done (.head .typeDone .refl) (mirrors''.log _) (.log mirrors''.sound _)
          ⟨fun {w} later ↦ ?_, fun later ↦ agrees later.of_log⟩))
      fun _ result _ later ↦ result.2 later.precedes
    · rw [get?_put_of_ne]
      · exact get?_extend _ _ inside
      · rintro rfl
        exact Nat.ne_of_lt inside
    · have precedes := advances.precedes.trans later.of_log
      rw [userType_eq precedes.sound.distinct (Table.find?_of_prefix precedes.types visited),
        precedes.number empty.listed, empty.number]
  · rw [same]
    exact .refused (.head turn .refl) (turn_source_error failed)

theorem Resolves.type (roomy : Roomy g) (hr : r.Sound g s n) (key : TypeKey) :
    Resolves g s (n + 1) (type g s r key) [.type key none] (·.userType key) := by
  refine ⟨fun {σ v} mirrors bound ↦ ?_⟩
  have remembered := mirrors.typeIds key
  cases visited : v.types.find? key with
  | some d =>
    rw [visited, Option.map_some] at remembered
    rw [type_of_old remembered]
    exact .done (.head (.typeAgain visited) .refl) (mirrors.log _) (.log mirrors.sound _)
      fun later ↦ (later.of_log.userType mirrors.sound visited).symm
  | none =>
    rw [visited, Option.map_none] at remembered
    cases found : g.types.find? key with
    | none =>
      rw [type_of_missing remembered found]
      refine .refused .refl ?_
      rw [turn, meetType, visited, found]
    | some d =>
      exact (follows_new_type roomy hr mirrors bound visited found).mono
        fun _ _ _ result ↦ result.1

/-! ## Constants -/

theorem Resolves.constantOf (hr : r.Sound g s n) (d : Graph.Constant) :
    Resolves g s n (constantOf g s r d) (requirementsOfConstant d) (·.constant d) := by
  rw [requirementsOfConstant_eq]
  exact (Resolves.owner d.info).bind fun owner ↦ (Resolves.kind hr d.type).bind fun kind ↦
    (Resolves.value hr d.value).bind fun value ↦ (Resolves.parent hr d.info).map fun parent? ↦
      (⟨d.info.shortName, owner, kind, value, parent?⟩ : Module.Constant)

theorem constant_of_old {id : ConstantId} (old : σ.constantIds.find? key = some id) :
    constant g s r key σ = .ok (id, σ) := by
  rw [constant, bind_apply]
  change Except.bind (Except.ok (σ, σ)) _ = _
  simp only [Except.bind, old]
  rfl

theorem constant_of_missing (new : σ.constantIds.find? key = none)
    (missing : g.values.find? key = none) :
    constant g s r key σ = .error (.refused (.missingValue key)) := by
  rw [constant, bind_apply]
  change Except.bind (Except.ok (σ, σ)) _ = _
  simp only [Except.bind, new, missing]
  rfl

theorem constant_of_enumerator {d : Graph.Enumerator} (new : σ.constantIds.find? key = none)
    (found : g.values.find? key = some (.enumerator d)) :
    constant g s r key σ = .error (.refused (.valueMismatch key .constant .enumMember)) := by
  rw [constant, bind_apply]
  change Except.bind (Except.ok (σ, σ)) _ = _
  simp only [Except.bind, new, found]
  rfl

theorem constant_of_new {d : Graph.Constant} (new : σ.constantIds.find? key = none)
    (found : g.values.find? key = some (.constant d))
    (room : (σ.arenas .constants).size < 2 ^ 32) :
    constant g s r key σ =
      (constantOf g s r d >>= fun c ↦
        write .constants (σ.arenas .constants).size (fun _ ↦ some c) >>= fun _ ↦
          pure ⟨(σ.arenas .constants).size⟩) (σ.addConstant key) := by
  rw [constant, bind_apply]
  change Except.bind (Except.ok (σ, σ)) _ = _
  simp only [Except.bind, new, found]
  rw [bind_apply, allocate_apply room]
  rfl

theorem follows_new_constant (roomy : Roomy g) (hr : r.Sound g s n) {d : Graph.Constant}
    (mirrors : Mirrors g s none σ v) (bound : unvisited g v < n + 1)
    (new : v.constants.find? key = none) (found : g.values.find? key = some (.constant d)) :
    Follows g s none [.meet (.constant key)] σ v
      (fun id σ' v' ↦ (∀ {w}, v'.Precedes g w → id = (ofVisits s w).constantId key) ∧
        ∀ {w}, v'.Precedes g w → σ'.Agrees (ofVisits s w) .constants key)
      (constant g s r key σ) := by
  have adds := adds_visitConstant (s := s) mirrors.sound new found
  have room := mirrors.room roomy adds
  have fresh : key ∉ (ofVisits s v).keysIn .constants := Table.find?_eq_none_iff.mp new
  have visited : (v.visitConstant key d).constants.find? key = some d := Table.find?_insert_self ..
  have entered := mirrors.addConstant new found
  have empty : NodeAt s .constants key (σ.arenas .constants).size (Cell.empty _)
      (σ.addConstant key) (v.visitConstant key d) := mirrors.nodeAt_new fresh adds rfl
  have less : unvisited g (v.visitConstant key d) < n :=
    (unvisited_visitConstant_lt new found).trans_le (Nat.le_of_lt_succ bound)
  have kept : ∀ {space' j}, j < (σ.arenas space').size →
      ((σ.addConstant key).arenas space').get? j = (σ.arenas space').get? j := get?_extend _ _
  have filled : Fills g s n .constants key (σ.arenas .constants).size _ _ _ :=
    .write .constants (Resolves.constantOf hr d) (fun c _ ↦ some c) fun _ _ ↦ rfl
  rw [constant_of_new (by rw [mirrors.constantIds, new]; rfl) found room, ← bind_assoc]
  refine .enclose mirrors (.constantNew (Or.inl rfl) found new) adds fresh kept
    ((filled.follows entered less empty).bind empty.old
      fun {_ σ' v'} _ mirrors' advances ⟨x, at', result⟩ ↦
        .done (.head .constantDone .refl) (mirrors'.log _) (.log mirrors'.sound _)
          ⟨fun {w} later ↦ ?_, fun {w} later ↦ at'.agrees later.of_log ?_⟩)
    fun _ result _ later ↦ result.2 later.precedes
  · have precedes := advances.precedes.trans later.of_log
    exact congrArg Id.mk (empty.number.symm.trans (precedes.number empty.listed).symm)
  · have precedes := advances.precedes.trans later.of_log
    rw [result later.of_log]
    exact get?_map_values _ (Table.find?_of_prefix precedes.constants visited)

theorem Resolves.constant (roomy : Roomy g) (hr : r.Sound g s n) (key : ValueKey) :
    Resolves g s (n + 1) (constant g s r key) [.constant key] (·.constantId key) := by
  refine ⟨fun {σ v} mirrors bound ↦ ?_⟩
  have remembered := mirrors.constantIds key
  cases visited : v.constants.find? key with
  | some d =>
    rw [visited, Option.map_some] at remembered
    rw [constant_of_old remembered]
    have listed : key ∈ (ofVisits s v).keysIn .constants := Table.mem_keys_iff.mpr ⟨d, visited⟩
    have known := mirrors.sound.constants visited
    exact .done (.head (.constantAgain (Or.inl rfl) known visited) .refl)
      (mirrors.log _) (.log mirrors.sound _)
      fun later ↦ congrArg Id.mk (later.of_log.number listed).symm
  | none =>
    rw [visited, Option.map_none] at remembered
    cases found : g.values.find? key with
    | none =>
      rw [constant_of_missing remembered found]
      refine .refused .refl ?_
      rw [turn, found]
    | some d =>
      cases d with
      | enumerator d =>
        rw [constant_of_enumerator remembered found]
        refine .refused .refl ?_
        rw [turn, found]
      | constant d =>
        exact (follows_new_constant roomy hr mirrors bound visited found).mono
          fun _ _ _ result ↦ result.1

/-! ## Enum members -/

theorem member_of_old {id : MemberId} {d : Graph.Enumerator}
    (old : σ.memberIds.find? key = some id) : member s r key d σ = .ok (id, σ) := by
  rw [member, bind_apply]
  change Except.bind (Except.ok (σ, σ)) _ = _
  simp only [Except.bind, old]
  rfl

theorem member_of_new {d : Graph.Enumerator} (new : σ.memberIds.find? key = none)
    (room : (σ.arenas .members).size < 2 ^ 32) :
    member s r key d σ =
      (typed r .enum d.enum >>= fun enum ↦ read .enums enum.index >>= fun node ↦
        write .members (σ.arenas .members).size (fun _ ↦
          some ⟨d.info.shortName, enum, node.owner, s.module.namespaceOf node.owner,
            node.parent?⟩) >>= fun _ ↦
          pure ⟨(σ.arenas .members).size⟩) (σ.addMember key) := by
  rw [member, bind_apply]
  change Except.bind (Except.ok (σ, σ)) _ = _
  simp only [Except.bind, new]
  rw [bind_apply, allocate_apply room]
  rfl

theorem member_eq {d : Graph.Enumerator} {e : Graph.Enum} {x : Module.Enum}
    {unplaced : List TypeKey} (hw : w.Distinct) (visited : w.types.find? d.enum = some (.enum e))
    (stray : key ∈ w.stray ↔ d.enum ∈ unplaced)
    (reads : placement .enums x = some (placementOf (ofVisits s w) unplaced d.enum e)) :
    (ofVisits s w).member key d =
      ⟨d.info.shortName, ⟨(ofVisits s w).number .enums d.enum⟩, x.owner,
        s.module.namespaceOf x.owner, x.parent?⟩ := by
  obtain ⟨owner, parent⟩ := Prod.mk.inj (Option.some.inj reads)
  have info : (ofVisits s w).enums.find? d.enum = some e := (find?_enums_iff hw).mpr visited
  rw [owner, parent, Numbering.member, info]
  have stray' : (key ∈ (ofVisits s w).stray) = (d.enum ∈ unplaced) := propext stray
  simp only [stray', Option.map_some, Option.getD_some]
  rfl

/-- An enum member is written down, and the walk says whether it is stray: it is if its enum is
unplaced. -/
theorem follows_memberDone {d : Graph.Enumerator} {c : Option Module.Member} {m : Module.Member}
    (mirrors : Mirrors g s none σ v) (nodeAt : NodeAt s .members key i c σ v)
    (visited : v.members.find? key = some d) (fresh : key ∉ v.stray)
    (same : ∀ {w}, v.Precedes g w → (key ∈ w.stray ↔ d.enum ∈ v.unplaced) →
      (ofVisits s w).member key d = m) :
    Follows g s (some (.members, key)) [.memberDone key d.enum] σ v
      (fun id σ' v' ↦ id = ⟨i⟩ ∧ ∀ {w}, v'.Precedes g w → (key ∈ w.stray ↔ key ∈ v'.stray) →
        σ'.Agrees (ofVisits s w) .members key)
      ((write .members i (fun _ ↦ some m) >>= fun _ ↦ pure (⟨i⟩ : MemberId)) σ) := by
  have sound : (v.placeMember key d.enum).Sound g :=
    mirrors.sound.placeMember (Table.mem_keys_iff.mpr ⟨d, visited⟩) d.enum
  rw [bind_apply, write_apply nodeAt.node]
  have written := nodeAt.put (some m)
  have put : Advances g s (some (.members, key)) σ v (σ.put .members i (some m)) v :=
    .put mirrors.sound nodeAt _
  refine .done (.head .memberDone .refl) ?_ ?_ ⟨rfl, fun {w} later stray ↦ ?_⟩
  · exact (mirrors.put nodeAt (some m) (Or.inl rfl)).adjust sound.unplaced sound.stray
      fun other ↦ ⟨other, Iff.rfl⟩
  · refine ⟨⟨List.prefix_rfl, List.prefix_rfl, List.prefix_rfl, sound.log _⟩, rfl,
      fun {key'} _ other ↦ mem_stray_placeMember.trans (or_iff_right ?_), put.kept,
      fun new old ↦ absurd old new⟩
    rintro ⟨rfl, -⟩
    exact other rfl
  · have precedes : v.Precedes g w := ⟨later.types, later.constants, later.members, later.sound⟩
    have stray' : key ∈ w.stray ↔ d.enum ∈ v.unplaced := by
      refine stray.trans (mem_stray_placeMember.trans ?_)
      rw [or_iff_left fresh, and_iff_right rfl]
    rw [← same precedes stray'] at written ⊢
    exact NodeAt.agrees written precedes (get?_map_entries
      (fun key d ↦ some ((ofVisits s w).member key d))
      (Table.find?_of_prefix precedes.members visited))

theorem follows_new_member (roomy : Roomy g) (hr : r.Sound g s n) {d : Graph.Enumerator}
    (mirrors : Mirrors g s none σ v) (bound : unvisited g v < n + 1)
    (new : v.members.find? key = none) (found : g.values.find? key = some (.enumerator d)) :
    Follows g s none [.meet (.value key)] σ v
      (fun id σ' v' ↦ (∀ {w}, v'.Precedes g w → id = (ofVisits s w).memberId key) ∧
        ∀ {w}, Later g v v' w → σ'.Agrees (ofVisits s w) .members key)
      (member s r key d σ) := by
  have adds := adds_visitMember (s := s) mirrors.sound new found
  have room := mirrors.room roomy adds
  have fresh : key ∉ (ofVisits s v).keysIn .members := Table.find?_eq_none_iff.mp new
  have visited : (v.visitMember key d).members.find? key = some d := Table.find?_insert_self ..
  have entered := mirrors.addMember new found
  have empty : NodeAt s .members key (σ.arenas .members).size (Cell.empty _)
      (σ.addMember key) (v.visitMember key d) := mirrors.nodeAt_new fresh adds rfl
  have less : unvisited g (v.visitMember key d) < n :=
    (unvisited_visitMember_lt new found).trans_le (Nat.le_of_lt_succ bound)
  have kept : ∀ {space' j}, j < (σ.arenas space').size →
      ((σ.addMember key).arenas space').get? j = (σ.arenas space').get? j := get?_extend _ _
  rw [member_of_new (by rw [mirrors.memberIds, new]; rfl) room]
  have typed : Follows g s none _ (σ.addMember key) (v.visitMember key d)
      (fun (enum : EnumId) σ' v' ↦
        NodeAt s .members key (σ.arenas .members).size (Cell.empty _) σ' v' ∧
        (key ∈ v'.stray ↔ key ∈ v.stray) ∧ enum = ⟨(ofVisits s v').number .enums d.enum⟩) _ :=
    ((Resolves.typed hr .enum d.enum).follows entered less).mono fun _ mirrors' advances result ↦
      ⟨empty.later advances, advances.strays empty.listed nofun, result (.refl mirrors'.sound)⟩
  refine .enclose mirrors (.memberNew found new) adds fresh kept
    (typed.within.bind empty.old fun {enum σ' v'} run mirrors' advances result ↦ ?_)
    fun _ result ↦ result.2
  obtain ⟨at', stray, rfl⟩ := result
  -- The enum was asked for and found, so that it is visited, and it can be read.
  have met : Requirement.Met s v' (.type d.enum (some .enum)) :=
    run.met _ (List.mem_singleton_self _)
  obtain ⟨e, enum⟩ : ∃ e, v'.types.find? d.enum = some (.enum e) := by
    cases met.use rfl with
    | @type _ _ e visited fits =>
      cases e with
      | enum e => exact ⟨e, visited⟩
      | _ => cases fits _ rfl
  obtain ⟨x, node, reads⟩ := mirrors'.enums enum nofun
  have notStray : key ∉ v'.stray := fun h ↦
    Table.find?_eq_none_iff.mp new (mirrors.sound.stray (stray.mp h))
  have listed : d.enum ∈ (ofVisits s v').keysIn .enums :=
    mem_keysIn_arenaOf mirrors'.sound.distinct enum
  have closing := follows_memberDone (i := (σ.arenas .members).size)
    (m := ⟨d.info.shortName, ⟨(ofVisits s v').number .enums d.enum⟩, x.owner,
      s.module.namespaceOf x.owner, x.parent?⟩) mirrors' at'
    (Table.find?_of_prefix advances.precedes.members visited) notStray fun {w} later stray' ↦ by
      rw [member_eq later.sound.distinct (Table.find?_of_prefix later.types enum) stray'
        (reads later), later.number listed]
  rw [bind_apply, read_apply node]
  refine closing.mono fun {id σ'' v''} _ _ advances' ⟨position, agrees⟩ ↦ ?_
  have precedes := advances.precedes.trans advances'.precedes
  refine ⟨fun {w} later ↦ ?_, fun {w} later ↦ agrees later.precedes ?_⟩
  · rw [position]
    exact congrArg Id.mk (empty.number.symm.trans ((precedes.trans later).number empty.listed).symm)
  · exact later.strays (Table.find?_eq_none_iff.mp new) (precedes.mem_members empty.listed)

theorem Resolves.member (roomy : Roomy g) (hr : r.Sound g s n) {d : Graph.Enumerator}
    (found : g.values.find? key = some (.enumerator d)) :
    Resolves g s (n + 1) (member s r key d) [.value key] (·.memberId key) := by
  refine ⟨fun {σ v} mirrors bound ↦ ?_⟩
  have remembered := mirrors.memberIds key
  cases visited : v.members.find? key with
  | some d' =>
    rw [visited, Option.map_some] at remembered
    rw [member_of_old remembered]
    have listed : key ∈ (ofVisits s v).keysIn .members := Table.mem_keys_iff.mpr ⟨d', visited⟩
    exact .done (.head (.memberAgain found visited) .refl) (mirrors.log _) (.log mirrors.sound _)
      fun later ↦ congrArg Id.mk (later.of_log.number listed).symm
  | none =>
    exact (follows_new_member roomy hr mirrors bound visited found).mono
      fun _ _ _ result ↦ result.1

/-! ## All declarations -/

/-- **What finds declarations does so as the walk does,** when there is less left to visit than the
number of levels. -/
theorem sound_resolver (roomy : Roomy g) (n : Nat) : (resolver g s n).Sound g s n := by
  -- Without levels there would have to be less than nothing left to visit.
  induction n with
  | zero =>
    exact ⟨fun _ ↦ ⟨fun _ bound ↦ absurd bound (Nat.not_lt_zero _)⟩,
      fun _ ↦ ⟨fun _ bound ↦ absurd bound (Nat.not_lt_zero _)⟩,
      fun _ ↦ ⟨fun _ bound ↦ absurd bound (Nat.not_lt_zero _)⟩⟩
  | succ n ih =>
    exact ⟨Resolves.type roomy ih, Resolves.constant roomy ih, Resolves.member roomy ih⟩

end IdlLinker.Construction
