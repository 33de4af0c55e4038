import IdlLinker.Proofs.Construction.Mirrors

/-!
# A construction follows the walk

A construction calls itself where the walk has a list of tasks. This module says what it means that
a part of a construction *follows* some tasks: it ends as they do, with a result or with the error
of the task that fails, and never otherwise. The rules below show this of a program from its parts.

## What a part leaves behind

A part of a construction leaves the nodes alone that were there when it began, and those it adds are
complete when it ends: they are what the assembly makes of them, whatever the walk goes on to visit
(`Advances`). So the nodes under construction are those whose parts are still running, and no
account has to be kept of them. Two things need care.

* A part that is called for a node writes to that one, too. It is called the *open* one.
* Whether an enum member is stray is known when it is complete, and the walk says so at the same
  time. Members that are not complete may still turn out to be stray; so a part only promises
  something for those states of the walk in which the members that it has added itself are stray if
  they are now.
-/

namespace IdlLinker.Construction

open IdlLinker.Graph IdlLinker.Link IdlLinker.Link.Numbering

variable {g : Graph} {s : Scope} {σ σ' σ'' : Site} {v v' v'' w : Visits} {space : Space}
  {key : String} {i n : Nat} {x y : Cell space} {opened : Option (Space × String)}
  {tasks tasks' : List Task}

/-! ## Advancing -/

/-- A walk that has come from one state to another goes on to a third. -/
structure Later (g : Graph) (v v' w : Visits) : Prop where
  precedes : v'.Precedes g w
  /-- It says the same of the members that were added between the two. -/
  strays : ∀ {key}, key ∉ v.members.keys → key ∈ v'.members.keys →
    (key ∈ w.stray ↔ key ∈ v'.stray)

/-- A node is what the assembly makes of its key. -/
def Site.Agrees (σ : Site) (n : Numbering) (space : Space) (key : String) : Prop :=
  σ.node? n space key = (n.arena space).get? (n.number space key)

/-- What a part of a construction does to the site while the walk goes from one state to another. -/
structure Advances (g : Graph) (s : Scope) (opened : Option (Space × String)) (σ : Site)
    (v : Visits) (σ' : Site) (v' : Visits) : Prop where
  precedes : v.Precedes g v'
  unplaced : v'.unplaced = v.unplaced
  /-- Whether an older member is stray is not settled here, unless it is the open one. -/
  strays : ∀ {key}, key ∈ v.members.keys → opened ≠ some (.members, key) →
    (key ∈ v'.stray ↔ key ∈ v.stray)
  /-- The nodes that were there are left alone, apart from the open one. -/
  kept : ∀ {space key}, key ∈ (ofVisits s v).keysIn space → opened ≠ some (space, key) →
    σ'.node? (ofVisits s v) space key = σ.node? (ofVisits s v) space key
  /-- The nodes that were added are complete. -/
  complete : ∀ {space key}, key ∉ (ofVisits s v).keysIn space →
    key ∈ (ofVisits s v').keysIn space → ∀ {w}, Later g v v' w →
    σ'.Agrees (ofVisits s w) space key

theorem node?_eq (h : v.Precedes g w) (listed : key ∈ (ofVisits s v).keysIn space) :
    σ.node? (ofVisits s w) space key = σ.node? (ofVisits s v) space key := by
  rw [Site.node?, Site.node?, h.number listed]

namespace Advances

theorem refl (h : v.Sound g) : Advances g s opened σ v σ v where
  precedes := .refl h
  unplaced := rfl
  strays _ _ := Iff.rfl
  kept _ _ := rfl
  complete new old := absurd old new

theorem log (h : v.Sound g) (e : Log.Event) : Advances g s opened σ v σ (v.log e) where
  precedes := ⟨List.prefix_rfl, List.prefix_rfl, List.prefix_rfl, h.log e⟩
  unplaced := rfl
  strays _ _ := Iff.rfl
  kept _ _ := rfl
  complete new old := absurd old new

theorem mono (h : Advances g s none σ v σ' v') : Advances g s opened σ v σ' v' where
  precedes := h.precedes
  unplaced := h.unplaced
  strays listed _ := h.strays listed nofun
  kept listed _ := h.kept listed nofun
  complete := h.complete

theorem trans (h : Advances g s opened σ v σ' v') (h' : Advances g s opened σ' v' σ'' v'')
    (old : ∀ {space key}, opened = some (space, key) → key ∈ (ofVisits s v).keysIn space) :
    Advances g s opened σ v σ'' v'' where
  precedes := h.precedes.trans h'.precedes
  unplaced := h'.unplaced.trans h.unplaced
  strays listed other :=
    (h'.strays (h.precedes.mem_members listed) other).trans (h.strays listed other)
  kept {space key} listed other := by
    rw [← h.kept listed other, ← node?_eq h.precedes listed, ← node?_eq h.precedes listed]
    exact h'.kept (h.precedes.mem_keysIn listed) other
  complete {space key} new listed w later := by
    by_cases early : key ∈ (ofVisits s v').keysIn space
    · -- The first part has added the node, and the second one has left it alone.
      have closed : opened ≠ some (space, key) := fun eq ↦ new (old eq)
      have later' : Later g v v' w :=
        ⟨h'.precedes.trans later.precedes, fun fresh here ↦
          (later.strays fresh (h'.precedes.mem_members here)).trans
            (h'.strays here fun eq ↦ fresh (old eq))⟩
      have precedes := h'.precedes.trans later.precedes
      have agrees := h.complete new early later'
      rw [Site.Agrees, node?_eq precedes early] at agrees ⊢
      rw [h'.kept early closed, agrees]
    · have later' : Later g v' v'' w :=
        ⟨later.precedes, fun fresh here ↦ later.strays (fun present ↦
          fresh (h.precedes.mem_members present)) here⟩
      exact h'.complete early listed later'

theorem put (h : v.Sound g) (nodeAt : NodeAt s space key i x σ v) (y : Cell space) :
    Advances g s (some (space, key)) σ v (σ.put space i y) v where
  precedes := .refl h
  unplaced := rfl
  strays _ _ := Iff.rfl
  kept {space' key'} listed' other := by
    refine get?_put_of_ne _ _ ?_
    rintro rfl position
    have same := number_inj nodeAt.listed (nodeAt.number.trans position.symm)
    exact other (congrArg (fun k ↦ some (_, k)) same)
  complete new old := absurd old new

/-- The way to the container of an enum and back leaves the unplaced enums as they were. -/
theorem comeBack (h : Advances g s opened σ (v.leave key) σ' v') :
    Advances g s opened σ v σ' v'.comeBack where
  precedes :=
    ⟨h.precedes.types, h.precedes.constants, h.precedes.members, h.precedes.sound.comeBack⟩
  unplaced := congrArg (List.drop 1) h.unplaced
  strays := h.strays
  kept := h.kept
  complete new listed _ later :=
    h.complete new listed
      ⟨⟨later.precedes.types, later.precedes.constants, later.precedes.members,
        later.precedes.sound⟩, later.strays⟩

/-- A part that adds a node for a key, and completes it, closes it when it ends. -/
theorem enclose (adds : Visits.Adds g s space key v v')
    (kept : ∀ {space' j}, j < (σ.arenas space').size →
      (σ'.arenas space').get? j = (σ.arenas space').get? j)
    (size : ∀ space, (σ.arenas space).size = ((ofVisits s v).keysIn space).length)
    (h : Advances g s (some (space, key)) σ' v' σ'' v'')
    (agrees : ∀ {w}, Later g v v'' w → σ''.Agrees (ofVisits s w) space key)
    (new : key ∉ (ofVisits s v).keysIn space) : Advances g s none σ v σ'' v'' where
  precedes := adds.precedes.trans h.precedes
  unplaced := h.unplaced.trans adds.unplaced
  strays {key'} listed _ := by
    have other : some (space, key) ≠ some (.members, key') := by
      rintro ⟨⟩
      exact new listed
    rw [h.strays (adds.precedes.mem_members listed) other, adds.stray]
  kept {space' key'} listed _ := by
    have other : some (space, key) ≠ some (space', key') := by
      rintro ⟨⟩
      exact new listed
    rw [← node?_eq adds.precedes listed, h.kept (adds.precedes.mem_keysIn listed) other,
      node?_eq adds.precedes listed]
    refine kept ?_
    rw [size]
    exact number_lt listed
  complete {space' key'} fresh listed w later := by
    by_cases same : space' = space ∧ key' = key
    · obtain ⟨rfl, rfl⟩ := same
      exact agrees later
    · -- Any other node was added inside, and is complete since then.
      have fresh' : key' ∉ (ofVisits s v').keysIn space' := by
        rw [adds.keysIn, List.mem_append, not_or]
        refine ⟨fresh, ?_⟩
        split
        · rename_i eq
          rw [List.mem_singleton]
          exact fun eq' ↦ same ⟨eq, eq'⟩
        · exact List.not_mem_nil
      refine h.complete fresh' listed ⟨later.precedes, fun new here ↦ later.strays ?_ here⟩
      exact fun old ↦ new (adds.precedes.mem_members old)

end Advances

theorem NodeAt.later (h : NodeAt s space key i x σ v) (advances : Advances g s none σ v σ' v') :
    NodeAt s space key i x σ' v' where
  listed := advances.precedes.mem_keysIn h.listed
  number := (advances.precedes.number h.listed).trans h.number
  node := by
    have kept := advances.kept h.listed nofun
    rw [Site.node?, Site.node?, h.number] at kept
    exact kept.trans h.node

/-! ## Following -/

/-- How a part of a construction ends when it follows some tasks: as they do, and with a result that
is as it should be. -/
inductive Follows {α : Type} (g : Graph) (s : Scope) (opened : Option (Space × String))
    (tasks : List Task) (σ : Site) (v : Visits) (post : α → Site → Visits → Prop) :
    Except Halt (α × Site) → Prop where
  | done {a : α} {σ' : Site} {v' : Visits} (run : Run g s tasks v [] v')
    (mirrors : Mirrors g s none σ' v') (advances : Advances g s opened σ v σ' v')
    (result : post a σ' v') : Follows g s opened tasks σ v post (.ok (a, σ'))
  | refused {e : LinkError} {task : Task} {rest : List Task} {v' : Visits}
    (run : Run g s tasks v (task :: rest) v') (failed : turn g s task v' = .error e) :
    Follows g s opened tasks σ v post (.error (.refused e))

variable {α β : Type} {post : α → Site → Visits → Prop} {post' : β → Site → Visits → Prop}

theorem bind_apply (c : Build α) (k : α → Build β) (σ : Site) :
    (c >>= k) σ = (c σ).bind fun p ↦ k p.1 p.2 := rfl

/-- One part after the other follows the tasks of the one before those of the other. -/
theorem Follows.bind {c : Build α} {k : α → Build β}
    (h : Follows g s opened tasks σ v post (c σ))
    (old : ∀ {space key}, opened = some (space, key) → key ∈ (ofVisits s v).keysIn space)
    (next : ∀ {a σ' v'}, Run g s tasks v [] v' → Mirrors g s none σ' v' →
      Advances g s opened σ v σ' v' → post a σ' v' →
      Follows g s opened tasks' σ' v' post' (k a σ')) :
    Follows g s opened (tasks ++ tasks') σ v post' ((c >>= k) σ) := by
  rw [bind_apply]
  generalize c σ = outcome at h
  cases h with
  | refused run failed => exact .refused (run.append tasks') failed
  | @done a σ' v' run mirrors advances result =>
    have run' : Run g s (tasks ++ tasks') v tasks' v' := run.append tasks'
    change Follows g s opened (tasks ++ tasks') σ v post' (k a σ')
    have second := next run mirrors advances result
    generalize k a σ' = outcome at second
    cases second with
    | refused run'' failed => exact .refused (run'.trans run'') failed
    | done run'' mirrors' advances' result' =>
      exact .done (run'.trans run'') mirrors' (advances.trans advances' old) result'

theorem unvisited_le (h : Run g s tasks v tasks' v') : unvisited g v' ≤ unvisited g v := by
  induction h with
  | refl => exact Nat.le_refl _
  | head first _ ih =>
    rcases first.progress with less | ⟨same, -⟩
    · exact ih.trans less.le
    · exact ih.trans same.le

/-- What holds of every result may be kept in mind. -/
theorem Follows.mono {outcome : Except Halt (α × Site)} {post₁ : α → Site → Visits → Prop}
    (h : Follows g s opened tasks σ v post outcome)
    (imp : ∀ {a σ' v'}, Run g s tasks v [] v' → Mirrors g s none σ' v' →
      Advances g s opened σ v σ' v' → post a σ' v' → post₁ a σ' v') :
    Follows g s opened tasks σ v post₁ outcome := by
  cases h with
  | refused run failed => exact .refused run failed
  | done run mirrors advances result =>
    exact .done run mirrors advances (imp run mirrors advances result)

/-- A part that opens no node may run while one is open. -/
theorem Follows.within {outcome : Except Halt (α × Site)}
    (h : Follows g s none tasks σ v post outcome) :
    Follows g s opened tasks σ v post outcome := by
  cases h with
  | refused run failed => exact .refused run failed
  | done run mirrors advances result => exact .done run mirrors advances.mono result

/-- Tasks may be replaced by others that take the same turn. -/
theorem Follows.of_turn_eq {task task' : Task} {rest : List Task}
    {outcome : Except Halt (α × Site)} (same : turn g s task v = turn g s task' v)
    (h : Follows g s opened (task :: rest) σ v post outcome) :
    Follows g s opened (task' :: rest) σ v post outcome := by
  cases h with
  | refused run failed =>
    cases run with
    | refl => exact .refused .refl (same ▸ failed)
    | head first next =>
      have first' := turn_eq_ok_iff.mp (same ▸ turn_eq_ok_iff.mpr first)
      exact .refused (.head first' next) failed
  | done run mirrors advances result =>
    cases run with
    | head first next =>
      have first' := turn_eq_ok_iff.mp (same ▸ turn_eq_ok_iff.mpr first)
      exact .done (.head first' next) mirrors advances result

/-! ## Parts with a result

What a part gives is what the numbering says in the end, of the same thing.
-/

/-- A part of a construction resolves some requirements: its result is what each later numbering
says. There has to be less left to visit than the given number. -/
structure Resolves (g : Graph) (s : Scope) (n : Nat) (c : Build α) (rs : List Requirement)
    (get : Numbering → α) : Prop where
  follows : ∀ {σ v}, Mirrors g s none σ v → unvisited g v < n →
    Follows g s none (rs.map .meet) σ v
      (fun a _ v' ↦ ∀ {w}, v'.Precedes g w → a = get (ofVisits s w)) (c σ)

namespace Resolves

variable {c : Build α} {k : α → Build β} {get : Numbering → α} {get' : α → Numbering → β}
  {r : Requirement} {rs rs' : List Requirement}

theorem pure (a : α) : Resolves g s n (pure a) [] fun _ ↦ a :=
  ⟨fun mirrors _ ↦ .done .refl mirrors (.refl mirrors.sound) fun _ ↦ rfl⟩

theorem bind (h : Resolves g s n c rs get) (h' : ∀ a, Resolves g s n (k a) rs' (get' a)) :
    Resolves g s n (c >>= k) (rs ++ rs') fun m ↦ get' (get m) m := by
  refine ⟨fun {σ v} mirrors bound ↦ ?_⟩
  rw [List.map_append]
  refine (h.follows mirrors bound).bind nofun fun {a σ' v'} run mirrors' _ first ↦ ?_
  have less := (unvisited_le run).trans_lt bound
  refine ((h' a).follows mirrors' less).mono fun _ _ advances result w later ↦ ?_
  rw [result later, first (advances.precedes.trans later)]

theorem map (h : Resolves g s n c rs get) (f : α → β) :
    Resolves g s n (c >>= fun a ↦ Pure.pure (f a)) rs fun m ↦ f (get m) :=
  List.append_nil rs ▸ h.bind fun a ↦ .pure (f a)

theorem mapM {ι : Type} {f : ι → Build α} {rs : ι → List Requirement} {get : Numbering → ι → α}
    (h : ∀ x, Resolves g s n (f x) (rs x) fun m ↦ get m x) (xs : List ι) :
    Resolves g s n (xs.mapM f) (xs.flatMap rs) fun m ↦ xs.map (get m) := by
  induction xs with
  | nil => exact .pure []
  | cons x xs ih =>
    rw [List.mapM_cons, List.flatMap_cons]
    exact (h x).bind fun a ↦ ih.map (a :: ·)

theorem mapM_each {ι : Type} {f : ι → Build α} {q : ι → Requirement} {get : Numbering → ι → α}
    (h : ∀ x, Resolves g s n (f x) [q x] fun m ↦ get m x) (xs : List ι) :
    Resolves g s n (xs.mapM f) (xs.map q) fun m ↦ xs.map (get m) := by
  rw [← List.flatMap_pure_eq_map]
  exact .mapM h xs

theorem refuse {e : LinkError} (failed : ∀ v, turn g s (.meet r) v = .error e) :
    Resolves g s n (refuse e) [r] get :=
  ⟨fun _ _ ↦ .refused .refl (failed _)⟩

theorem met {a : α} (met : ∀ v, Turn g s (.meet r) v [] v)
    (result : ∀ v, a = get (ofVisits s v)) : Resolves g s n (Pure.pure a) [r] get :=
  ⟨fun mirrors _ ↦ .done (.head (met _) .refl) mirrors (.refl mirrors.sound) fun _ ↦ result _⟩

end Resolves

end IdlLinker.Construction
