import IdlLinker.Proofs.Faithful

/-!
# Stray enum members

An enum member that is used as a value is nested where its enum is; the module says so beside the
member and beside the enum. The two places agree for every member but the stray ones. This module
says which members these are: the walk meets them for the first time when it is on its way through
the container of their enum. The enum is visited by then and does not know its container yet, so
that nothing can be copied from it.

Whether this happens depends on where the walk enters. A container that is met before the enum in it
is a visited type when the enum asks for it, and the walk comes back at once.

## Returns

Going to a container puts a return on the list of tasks, and the enum among the unplaced ones; the
return takes it away again. So the returns on the list and the unplaced enums correspond, the first
return to the enum that was left last. From this come the two halves of the argument.

* A member that is pending when its enum is unplaced will still find it unplaced when its turn comes
  only if no return for the enum stands before it. `Strays` is this forecast. No turn changes what
  is forecast, except that a new member of an unplaced enum is added to it.
* While an enum is unplaced, the tasks before its return are those that its container was turned
  into: the walk is inside.
-/

namespace IdlLinker

open IdlLinker.Graph

namespace Link

variable {g : Graph} {f : FileId} {s : Scope} {task : Task} {front rest tasks tasks' : List Task}
  {v v' final : Visits} {key : ValueKey} {opened : List TypeKey}

/-! ## Returns and unplaced enums -/

/-- The walk comes back from a container. -/
def Task.isReturn : Task → Bool
  | .placed => true
  | _ => false

/-- The number of containers that the walk has still to come back from. -/
def returns (tasks : List Task) : Nat := tasks.countP Task.isReturn

theorem returns_append (front rest : List Task) :
    returns (front ++ rest) = returns front + returns rest := List.countP_append

theorem returns_cons (task : Task) (rest : List Task) :
    returns (task :: rest) = returns [task] + returns rest := returns_append [task] rest

@[simp] theorem returns_map_meet (rs : List Requirement) : returns (rs.map .meet) = 0 := by
  rw [returns, List.countP_map, List.countP_eq_zero]
  intro r _
  simp [Task.isReturn]

@[simp] theorem returns_checks (key : TypeKey) (expected? : Option TypeTag) (actual : TypeTag) :
    returns (checks key expected? actual) = 0 := by
  cases expected? <;> rfl

/-- Only the turn that goes to a container puts a return in front. -/
theorem Turn.leaves (h : Turn g s task v front v') (closing : 0 < returns front) :
    ∃ enum container, task = .meet (.container enum container) ∧
      front = [.meet (.type container none), .placed] ∧ v' = v.leave enum := by
  cases h with
  | container => exact ⟨_, _, rfl, rfl, rfl⟩
  | typeAgain =>
    rw [returns_checks] at closing
    exact absurd closing (Nat.lt_irrefl 0)
  | typeNew =>
    rw [returns_append, returns_map_meet, returns_cons, returns_checks] at closing
    exact absurd closing (Nat.lt_irrefl 0)
  | constantNew =>
    rw [returns_append, returns_map_meet] at closing
    exact absurd closing (Nat.lt_irrefl 0)
  | memberNew =>
    rw [returns_append, returns_map_meet] at closing
    exact absurd closing (Nat.lt_irrefl 0)
  | _ => exact absurd closing (Nat.lt_irrefl 0)

/-- What a turn opens it also closes: with the returns in front of them taken away, the unplaced
enums are the same as before. -/
theorem Turn.unplaced (h : Turn g s task v front v') :
    v'.unplaced.drop (returns front) = v.unplaced.drop (returns [task]) := by
  cases h with
  | typeAgain => rw [returns_checks]; rfl
  | typeNew =>
    rw [returns_append, returns_map_meet, returns_cons, returns_checks]
    rfl
  | constantNew => rw [returns_append, returns_map_meet]; rfl
  | memberNew => rw [returns_append, returns_map_meet]; rfl
  | placed => rfl
  | _ => rfl

theorem Run.unplaced (h : Run g s tasks v tasks' v') :
    v'.unplaced.drop (returns tasks') = v.unplaced.drop (returns tasks) := by
  induction h with
  | refl => rfl
  | @head task front rest _ _ _ _ first _ ih =>
    rw [ih, returns_append, returns_cons task, ← List.drop_drop, first.unplaced, List.drop_drop]

/-! ## The forecast -/

/-- A member is going to be stray: its turn comes while its enum is still unplaced. -/
def Strays (key : ValueKey) : List Task → List TypeKey → Prop
  | [], _ => False
  | .placed :: rest, opened => Strays key rest (opened.drop 1)
  | .memberDone key' enum :: rest, opened => (key' = key ∧ enum ∈ opened) ∨ Strays key rest opened
  | _ :: rest, opened => Strays key rest opened

theorem strays_append :
    Strays key (front ++ rest) opened ↔
      Strays key front opened ∨ Strays key rest (opened.drop (returns front)) := by
  induction front generalizing opened with
  | nil => simp [Strays, returns]
  | cons task front ih =>
    rw [List.cons_append, returns_cons, ← List.drop_drop]
    cases task with
    | placed => simp only [Strays, ih]; rfl
    | memberDone key' enum => simp only [Strays, ih, or_assoc]; rfl
    | _ => simp only [Strays, ih]; rfl

@[simp] theorem not_strays_map_meet (rs : List Requirement) :
    ¬Strays key (rs.map .meet) opened := by
  induction rs with
  | nil => exact id
  | cons r rs ih => exact ih

@[simp] theorem not_strays_checks (key' : TypeKey) (expected? : Option TypeTag)
    (actual : TypeTag) : ¬Strays key (checks key' expected? actual) opened := by
  cases expected? <;> exact id

/-- A member is stray or going to be. -/
def Visits.Dooms (v : Visits) (tasks : List Task) (key : ValueKey) : Prop :=
  key ∈ v.stray ∨ Strays key tasks v.unplaced

/-- A member is met for the first time, and its enum is unplaced. -/
def FirstMet (g : Graph) (task : Task) (v : Visits) (key : ValueKey) : Prop :=
  ∃ d, task = .meet (.value key) ∧ g.values.find? key = some (.enumerator d) ∧
    v.members.find? key = none ∧ d.enum ∈ v.unplaced

/-- Tasks that come in front and do not forecast anything change nothing. -/
theorem dooms_append (silent : ¬Strays key front v.unplaced) (zero : returns front = 0) :
    v.Dooms (front ++ rest) key ↔ v.Dooms rest key := by
  rw [Visits.Dooms, Visits.Dooms, strays_append, or_iff_right silent, zero, List.drop_zero]

/-- Where no member is met for the first time, the forecast stays the same. -/
theorem Turn.dooms_iff_of_not_firstMet (h : Turn g s task v front v')
    (old : ¬FirstMet g task v key) : v'.Dooms (front ++ rest) key ↔ v.Dooms (task :: rest) key := by
  cases h with
  | typeAgain => exact dooms_append (not_strays_checks _ _ _) (returns_checks _ _ _)
  | @typeNew key' expected? d =>
    have silent : ¬Strays key (checks key' expected? d.tag) v.unplaced :=
      not_strays_checks key' expected? d.tag
    rw [List.append_assoc, dooms_append (not_strays_map_meet _) (returns_map_meet _)]
    exact dooms_append silent (returns_checks _ _ _)
  | constantNew =>
    rw [List.append_assoc, dooms_append (not_strays_map_meet _) (returns_map_meet _)]
    exact Iff.rfl
  | @memberNew key' d _ found new =>
    rw [List.append_assoc, dooms_append (not_strays_map_meet _) (returns_map_meet _)]
    -- The new member is pending now, which matters only if it is this one and its enum is unplaced.
    have placed : ¬(key' = key ∧ d.enum ∈ v.unplaced) := by
      rintro ⟨rfl, opened⟩
      exact old ⟨d, rfl, found, new, opened⟩
    exact or_congr_right (or_iff_right placed)
  | @memberDone key' enum =>
    simp only [Visits.Dooms, Visits.log, Visits.placeMember, List.nil_append, Strays]
    split
    · rename_i opened
      rw [List.mem_cons, and_iff_left opened, eq_comm, or_assoc, or_left_comm]
    · rename_i placed
      refine or_congr_right (or_iff_right ?_).symm
      exact fun h ↦ placed h.2
  | _ => exact Iff.rfl

/-- A member that is met for the first time while its enum is unplaced is going to be stray. -/
theorem Turn.dooms_of_firstMet (h : Turn g s task v front v') (new : FirstMet g task v key) :
    v'.Dooms (front ++ rest) key := by
  obtain ⟨d, rfl, found, new, opened⟩ := new
  cases h with
  | constantAgain asks found' =>
    rcases asks with asks | asks <;> cases asks
    cases found.symm.trans found'
  | constantNew asks found' =>
    rcases asks with asks | asks <;> cases asks
    cases found.symm.trans found'
  | memberAgain found' old =>
    rw [new] at old
    cases old
  | memberNew found' =>
    cases found.symm.trans found'
    rw [List.append_assoc, dooms_append (not_strays_map_meet _) (returns_map_meet _)]
    exact Or.inr (Or.inl ⟨rfl, opened⟩)

/-- The forecast changes only where a member of an unplaced enum is met for the first time. -/
theorem Turn.dooms_iff (h : Turn g s task v front v') :
    v'.Dooms (front ++ rest) key ↔ v.Dooms (task :: rest) key ∨ FirstMet g task v key := by
  by_cases new : FirstMet g task v key
  · exact iff_of_true (h.dooms_of_firstMet new) (Or.inr new)
  · rw [h.dooms_iff_of_not_firstMet new, or_iff_left new]

theorem Run.eq_or_next (h : Run g s (task :: rest) v tasks' v'')
    (first : Turn g s task v front v') :
    (tasks' = task :: rest ∧ v'' = v) ∨ Run g s (front ++ rest) v' tasks' v'' := by
  cases h with
  | refl => exact Or.inl ⟨rfl, rfl⟩
  | head first' next =>
    obtain ⟨rfl, rfl⟩ := first.deterministic first'
    exact Or.inr next

/-- **A member is stray in the end exactly when this was forecast, or it was met for the first time
while its enum was unplaced.** -/
theorem Run.mem_stray_iff (h : Run g s tasks v [] final) :
    key ∈ final.stray ↔ v.Dooms tasks key ∨
      ∃ task rest v', Run g s tasks v (task :: rest) v' ∧ FirstMet g task v' key := by
  generalize ended : ([] : List Task) = left at h
  induction h with
  | refl =>
    -- Nothing is left, so nothing is forecast, and no run goes on from here.
    subst ended
    constructor
    · exact fun h ↦ Or.inl (Or.inl h)
    · rintro ((h | h) | ⟨task, rest, v', run, -⟩)
      · exact h
      · exact h.elim
      · cases run
  | @head task front rest _ v v' _ first _ ih =>
    rw [ih ended, first.dooms_iff, or_assoc]
    refine or_congr_right ?_
    constructor
    · rintro (new | ⟨task', rest', v'', run, new⟩)
      · exact ⟨task, rest, v, .refl, new⟩
      · exact ⟨task', rest', v'', .head first run, new⟩
    · rintro ⟨task', rest', v'', run, new⟩
      rcases run.eq_or_next first with ⟨same, rfl⟩ | run
      · obtain ⟨rfl, rfl⟩ := List.cons.inj same
        exact Or.inl new
      · exact Or.inr ⟨task', rest', v'', run, new⟩

/-! ## On the way through a container -/

/-- The walk is on its way through the container of an enum, and comes back with the given number of
returns before. -/
def Inside (g : Graph) (s : Scope) (tasks : List Task) (v : Visits) (enum : TypeKey) (n : Nat)
    (tasks' : List Task) (v' : Visits) : Prop :=
  ∃ container rest v₁ inner, Run g s tasks v (.meet (.container enum container) :: rest) v₁ ∧
    Run g s [.meet (.type container none)] (v₁.leave enum) inner v' ∧
    tasks' = inner ++ .placed :: rest ∧ returns inner = n

theorem Inside.turn {tasks₀ : List Task} {v₀ : Visits} {enum : TypeKey} {n : Nat}
    (hin : Inside g s tasks₀ v₀ enum n (task :: rest) v) (h : Turn g s task v front v')
    (stays : task = .placed → 0 < n) :
    ∃ n', n' + returns [task] = n + returns front ∧
      Inside g s tasks₀ v₀ enum n' (front ++ rest) v' := by
  obtain ⟨container, outer, v₁, inner, run, within, split, rfl⟩ := hin
  cases inner with
  | nil =>
    obtain ⟨rfl, rfl⟩ := List.cons.inj split
    exact absurd (stays rfl) (Nat.lt_irrefl 0)
  | cons task' inner =>
    obtain ⟨rfl, rfl⟩ := List.cons.inj split
    refine ⟨returns (front ++ inner), ?_, container, outer, v₁, front ++ inner, run,
      within.tail h, (List.append_assoc _ _ _).symm, rfl⟩
    rw [returns_append, returns_cons task inner]
    omega

/-- **While an enum is unplaced, the walk is on its way through the container.** -/
theorem Run.inside (h : Run g s tasks v tasks' v') (start : v.unplaced = []) {n : Nat}
    {enum : TypeKey} (opened : v'.unplaced[n]? = some enum) :
    Inside g s tasks v enum n tasks' v' := by
  have both : Run g s tasks v tasks' v' ∧
      ∀ n enum, v'.unplaced[n]? = some enum → Inside g s tasks v enum n tasks' v' := by
    refine h.preserves (P := fun tasks' v' ↦ Run g s tasks v tasks' v' ∧
      ∀ n enum, v'.unplaced[n]? = some enum → Inside g s tasks v enum n tasks' v') ?_ ⟨.refl, ?_⟩
    · rintro task front rest v₁ v₂ turn ⟨run, inside⟩
      refine ⟨run.tail turn, fun n enum opened ↦ ?_⟩
      -- Either the turn has just left the enum, or the enum was unplaced before, at another depth
      -- if the turn opens or closes something.
      by_cases left : n < returns front
      · obtain ⟨enum', container, rfl, rfl, rfl⟩ := turn.leaves (Nat.zero_lt_of_lt left)
        obtain rfl : n = 0 := Nat.lt_one_iff.mp left
        obtain rfl := Option.some.inj opened
        exact ⟨container, rest, v₁, _, run, .refl, rfl, rfl⟩
      · have before : v₁.unplaced[returns [task] + (n - returns front)]? = some enum := by
          rw [← List.getElem?_drop, ← turn.unplaced, List.getElem?_drop, ← opened]
          congr 1
          omega
        obtain ⟨n', same, within⟩ := (inside _ enum before).turn turn (by
          rintro rfl
          exact Nat.lt_of_lt_of_le Nat.zero_lt_one (Nat.le_add_right _ _))
        obtain rfl : n' = n := by omega
        exact within
    · intro n enum opened
      rw [start] at opened
      cases opened
  exact both.2 n enum opened

/-- A member of an enum is met for the first time on the way through the container of the enum. -/
inductive MetInside (g : Graph) (s : Scope) (tasks : List Task) (v : Visits) (key : ValueKey) :
    Prop where
  | intro {d : Graph.Enumerator} {container : TypeKey} {rest inner : List Task}
    {v₁ v₂ : Visits}
    (enters : Run g s tasks v (.meet (.container d.enum container) :: rest) v₁)
    (within : Run g s [.meet (.type container none)] (v₁.leave d.enum)
      (.meet (.value key) :: inner) v₂)
    (new : v₂.members.find? key = none) (found : g.values.find? key = some (.enumerator d)) :
    MetInside g s tasks v key

theorem metInside_iff (start : v.unplaced = []) :
    MetInside g s tasks v key ↔
      ∃ task rest v', Run g s tasks v (task :: rest) v' ∧ FirstMet g task v' key := by
  constructor
  · intro met
    obtain @⟨d, container, rest, inner, v₁, v₂, enters, within, new, found⟩ := met
    have whole : Run g s tasks v (.meet (.value key) :: (inner ++ .placed :: rest)) v₂ :=
      (enters.tail .container).trans (within.append (.placed :: rest))
    refine ⟨.meet (.value key), inner ++ .placed :: rest, v₂, whole, d, rfl, found, new, ?_⟩
    have kept : v₂.unplaced.drop (returns (.meet (.value key) :: inner)) =
      d.enum :: v₁.unplaced := within.unplaced
    exact List.mem_of_mem_drop (kept ▸ List.mem_cons_self)
  · rintro ⟨task, rest, v', run, d, rfl, found, new, opened⟩
    obtain ⟨n, opened⟩ := List.mem_iff_getElem?.mp opened
    obtain ⟨container, outer, v₁, inner, enters, within, split, -⟩ := run.inside start opened
    -- The task at hand is the use of a member, so it is not the return that ends the inside.
    cases inner with
    | nil => cases split
    | cons task inner =>
      obtain ⟨rfl, rfl⟩ := List.cons.inj split
      exact ⟨enters, within, new, found⟩

variable {source : SourceFile} {imports : Table FileId (Module.Import Module)}

/-- **The stray members of a finished walk are those that were met inside.** -/
theorem Links.mem_stray_iff (h : Links g f source imports v) :
    key ∈ v.stray ↔
      MetInside g ⟨f, outline source imports⟩ (start source) (unbegun f source imports) key := by
  rw [h.run.mem_stray_iff, metInside_iff rfl]
  refine or_iff_right ?_
  rintro (old | forecast)
  · exact List.not_mem_nil old
  · exact not_strays_map_meet _ forecast

/-- The enum of a stray member is nested somewhere. -/
theorem Links.container_of_mem_stray (h : Links g f source imports v) {d : Graph.Enumerator}
    {e : Graph.Enum} (reached : g.ReachesMember f key d)
    (found : g.types.find? d.enum = some (.enum e)) (stray : key ∈ v.stray) :
    ∃ container, e.info.container? = some container := by
  obtain ⟨enters, -, -, found'⟩ := h.mem_stray_iff.mp stray
  obtain ⟨-, warranted⟩ := warranted_of_run h.file enters
  have first : Requirement.Warranted g f _ := warranted _ List.mem_cons_self
  obtain ⟨e', found'', nested⟩ := first.container rfl
  cases found'.symm.trans reached.2
  cases found''.symm.trans found
  exact ⟨_, nested⟩

/-- Where an enum is nested stands beside the enum and beside a member that is used as a value;
these agree unless the member is stray. -/
theorem Links.parents (h : Links g f source imports v) {d : Graph.Enumerator}
    (reached : g.ReachesMember f key d) :
    ∃ member enum, h.module.member? (h.naming.member key) = some member ∧
      h.module.enum? member.enum = some enum ∧
      (member.parent? = enum.parent? ↔ key ∉ v.stray) := by
  obtain ⟨e, visited⟩ := h.exists_enum reached
  have enum : h.numbering.enums.find? d.enum = some e :=
    (Numbering.find?_enums_iff h.distinct).mpr visited
  refine ⟨h.numbering.member key d, h.numbering.enum e,
    Numbering.get?_map_entries h.numbering.member (h.find?_members_iff.mpr reached),
    Numbering.get?_map_values h.numbering.enum enum, ?_⟩
  rw [h.member_parent? visited, Numbering.enum]
  constructor
  · intro same stray
    have found := (h.reached.types visited).2
    obtain ⟨container, nested⟩ := h.container_of_mem_stray reached found stray
    rw [if_pos stray, nested] at same
    cases same
  · intro placed
    rw [if_neg placed]
    rfl

end Link

/-! ## Modules -/

open Link

/-- In linking a file, an enum member is met for the first time on the way through the container of
its enum. -/
def Graph.MeetsInside (g : Graph) (f : FileId) (key : ValueKey) : Prop :=
  ∃ source imports, g.files.find? f = some source ∧ transitiveImports g source = .ok imports ∧
    MetInside g ⟨f, outline source imports⟩ (start source) (unbegun f source imports) key

theorem Link.Links.meetsInside_iff {g : Graph} {f : FileId} {source : SourceFile} {v : Visits}
    {imports : Table FileId (Module.Import Module)} (h : Links g f source imports v)
    {key : ValueKey} : g.MeetsInside f key ↔ key ∈ v.stray := by
  rw [h.mem_stray_iff]
  constructor
  · rintro ⟨source', imports', file, closed, met⟩
    cases file.symm.trans h.file
    cases closed.symm.trans h.closed
    exact met
  · intro met
    exact ⟨source, imports, h.file, h.closed, met⟩

/-- **Every member in a module is nested where its enum is, except exactly those that were met
inside.** -/
theorem member_parent_eq_iff {g : Graph} {f : FileId} {m : Module} (h : g.module f = .ok m) :
    ∃ ρ, Faithful g f m ρ ∧ ∀ key d, g.ReachesMember f key d →
      ∃ member enum, m.member? (ρ.member key) = some member ∧ m.enum? member.enum = some enum ∧
        (member.parent? = enum.parent? ↔ ¬g.MeetsInside f key) := by
  obtain ⟨source, imports, v, links, rfl⟩ := module_eq_ok_iff.mp h
  refine ⟨links.naming, links.faithful, fun key d reached ↦ ?_⟩
  rw [links.meetsInside_iff]
  exact links.parents reached

/-- A constant whose value is a member of an enum nested in a struct, and the struct, which has the
same member as a default. The constant comes first. -/
def Graph.sidelong : Graph where
  files := ⟨[
    ("a",
      { fileName := "a", declared? := some { constants := ["a.K"], structs := ["a.S"] } })]⟩
  types := ⟨[
    ("a.S", .struct
      { info := { source? := some { fileName := "a" }, contained? := some { enums := ["a.S.E"] } }
        fields := [{ type := .reference { key := "a.S.E" },
                     default? := some (.value (.reference { key := "a.S.E.A" })) }] }),
    ("a.S.E", .enum
      { info := { source? := some { fileName := "a" }, container? := some "a.S" }
        values := [{ enum := "a.S.E" }] })]⟩
  values := ⟨[
    ("a.K", .constant
      { info := { source? := some { fileName := "a" } }, type := .reference { key := "a.S.E" },
        value := .reference { key := "a.S.E.A" } }),
    ("a.S.E.A", .enumerator { enum := "a.S.E" })]⟩

/-- The member is met inside the struct, since the constant leads to the enum and the enum to the
struct: the module places the enum in the struct, and the member nowhere. -/
theorem sidelong_parents :
    ∃ m member enum, Graph.sidelong.module "a" = .ok m ∧ m.member? ⟨0⟩ = some member ∧
      m.enum? member.enum = some enum ∧ member.parent? = none ∧
      enum.parent? = some (.struct ⟨0⟩) := by
  have computed : ((Graph.sidelong.module "a").toOption.bind fun m ↦
      (m.member? ⟨0⟩).bind fun member ↦ (m.enum? member.enum).map fun enum ↦
        (member.parent?, enum.parent?)) = some (none, some (.struct ⟨0⟩)) := by cbv
  cases linked : Graph.sidelong.module "a" with
  | error e =>
    rw [linked] at computed
    cases computed
  | ok m =>
    rw [linked, Except.toOption, Option.bind_some] at computed
    obtain ⟨member, found, computed⟩ := Option.bind_eq_some_iff.mp computed
    obtain ⟨enum, found', parents⟩ := Option.map_eq_some_iff.mp computed
    obtain ⟨orphan, nested⟩ := Prod.mk.inj parents
    exact ⟨m, member, enum, rfl, found, found', orphan, nested⟩

/-- Where the struct comes first there is a module as well, and the members that agree are those
that were not met inside. -/
theorem member_parent_knot :
    ∃ m, Graph.knot.module "a" = .ok m ∧
      ∃ ρ, Faithful Graph.knot "a" m ρ ∧ ∀ key d, Graph.knot.ReachesMember "a" key d →
        ∃ member enum, m.member? (ρ.member key) = some member ∧
          m.enum? member.enum = some enum ∧
          (member.parent? = enum.parent? ↔ ¬Graph.knot.MeetsInside "a" key) := by
  have succeeds : (Graph.knot.module "a").toOption.isSome = true := by cbv
  cases linked : Graph.knot.module "a" with
  | error e =>
    rw [linked] at succeeds
    cases succeeds
  | ok m => exact ⟨m, rfl, member_parent_eq_iff linked⟩

end IdlLinker
