import IdlLinker.Proofs.Numbering
import IdlLinker.Proofs.Warrant
import Mathlib.Algebra.BigOperators.Ring.Finset
import Mathlib.Algebra.Order.BigOperators.Group.Finset
import Mathlib.Data.List.ReduceOption

/-!
# How much a link does

A graph may lead back to where it came from on any way: types and constants around cycles, enums
through initializers and containers, files through imports. A link ends all the same, and here its
turns are counted. The number of turns is linear in what the graph lists, the visits of a link are
all different, and so no more declarations are numbered than the graph has entries.

## The potential

A turn takes one task from the list. It may put others in front, but it does so only when it visits
a declaration for the first time, and then these are at most the requirements of that declaration,
apart from tasks that weigh less than the one taken. So the weight of the tasks, together with the
weight of what the declarations not yet visited require, falls with every turn. The import closure
is counted in the same way: a turn of the queue takes one name from it, and what it adds are the
imports of a file that was not found before.
-/

open Finset

namespace IdlLinker

open IdlLinker.Graph

namespace Link

/-! ## Places to visit -/

/-- A declaration as something to visit. -/
inductive Place where
  | type (key : TypeKey)
  | constant (key : ValueKey)
  | member (key : ValueKey)
deriving DecidableEq

/-- The place of the value under a key. -/
def placeOfValue (g : Graph) (key : ValueKey) : Place :=
  match g.values.find? key with
  | some (.enumerator _) => .member key
  | _ => .constant key

/-- All declarations of a graph. -/
def places (g : Graph) : List Place := g.types.keys.map .type ++ g.values.keys.map (placeOfValue g)

/-- What the declaration at a place requires. -/
def Place.requirements (g : Graph) : Place → List Requirement
  | .type key => ((g.types.find? key).map (requirementsOfTypeDecl key)).getD []
  | .constant key =>
    match g.values.find? key with
    | some (.constant d) => requirementsOfConstant d
    | _ => []
  | .member key =>
    match g.values.find? key with
    | some (.enumerator d) => requirementsOfEnumerator d
    | _ => []

/-- What is visited so far. -/
def Visits.places (v : Visits) : List Place :=
  v.types.keys.map .type ++ v.constants.keys.map .constant ++ v.members.keys.map .member

/-- What a task visits when its turn comes, if it visits anything. -/
def Task.visit? (g : Graph) (v : Visits) : Task → Option Place
  | .meet (.type key _) => if .type key ∈ v.places then none else some (.type key)
  | .meet (.constant key) => if .constant key ∈ v.places then none else some (.constant key)
  | .meet (.value key) => if placeOfValue g key ∈ v.places then none else some (placeOfValue g key)
  | _ => none

variable {g : Graph} {f : FileId} {s : Scope} {task : Task} {front rest tasks tasks' : List Task}
  {v v' : Visits} {key : String}

@[simp] theorem type_mem_places_iff : .type key ∈ v.places ↔ key ∈ v.types.keys := by
  simp [Visits.places]

@[simp] theorem constant_mem_places_iff : .constant key ∈ v.places ↔ key ∈ v.constants.keys := by
  simp [Visits.places]

@[simp] theorem member_mem_places_iff : .member key ∈ v.places ↔ key ∈ v.members.keys := by
  simp [Visits.places]

theorem placeOfValue_constant {d : Graph.Constant}
    (found : g.values.find? key = some (.constant d)) : placeOfValue g key = .constant key := by
  rw [placeOfValue, found]

theorem placeOfValue_enumerator {d : Graph.Enumerator}
    (found : g.values.find? key = some (.enumerator d)) : placeOfValue g key = .member key := by
  rw [placeOfValue, found]

theorem type_mem_graph_places {d : TypeDecl} (found : g.types.find? key = some d) :
    .type key ∈ places g := by
  have listed : key ∈ g.types.keys := Table.mem_keys_iff.mpr ⟨d, found⟩
  simp [places, listed]

theorem placeOfValue_mem_places {d : ValueDecl} (found : g.values.find? key = some d) :
    placeOfValue g key ∈ places g := by
  have listed : key ∈ g.values.keys := Table.mem_keys_iff.mpr ⟨d, found⟩
  exact List.mem_append_right _ (List.mem_map_of_mem listed)

/-! ## One turn -/

/-- What a turn costs: it visits a new declaration and takes on its requirements, or it visits
nothing and the tasks get lighter. -/
inductive Costs (g : Graph) (task : Task) (v v' : Visits) (front : List Task) : Prop where
  | visit {p : Place} (visits : task.visit? g v = some p) (there : p ∈ places g)
    (new : p ∉ v.places) (adds : v'.places.Perm (p :: v.places))
    (weighs : weight front < task.weight + weight ((p.requirements g).map .meet))
  | none (visits : task.visit? g v = none) (same : v'.places = v.places)
    (weighs : weight front < task.weight)

/-! ### Visits -/

theorem places_visitType {d : TypeDecl} (new : v.types.find? key = none) :
    (v.visitType key d).places.Perm (.type key :: v.places) := by
  have keys : (v.types.insert key d).keys = v.types.keys ++ [key] :=
    Table.keys_insert_of_new new
  simp only [Visits.places, Visits.visitType, keys, List.map_append, List.map_cons, List.map_nil,
    List.append_assoc, List.singleton_append]
  exact List.perm_middle

theorem places_visitConstant {d : Graph.Constant} (new : v.constants.find? key = none) :
    (v.visitConstant key d).places.Perm (.constant key :: v.places) := by
  have keys : (v.constants.insert key d).keys = v.constants.keys ++ [key] :=
    Table.keys_insert_of_new new
  simp only [Visits.places, Visits.visitConstant, keys, List.map_append, List.map_cons,
    List.map_nil, List.append_assoc, List.singleton_append]
  rw [← List.append_assoc, ← List.append_assoc]
  exact List.perm_middle

theorem places_visitMember {d : Graph.Enumerator} (new : v.members.find? key = none) :
    (v.visitMember key d).places.Perm (.member key :: v.places) := by
  have keys : (v.members.insert key d).keys = v.members.keys ++ [key] :=
    Table.keys_insert_of_new new
  simp only [Visits.places, Visits.visitMember, keys, List.map_append, List.map_cons,
    List.map_nil]
  rw [← List.append_assoc]
  exact List.perm_append_singleton _ _

theorem weight_checks_le (key : TypeKey) (expected? : Option TypeTag) (actual : TypeTag) :
    weight (checks key expected? actual) ≤ 1 := by
  cases expected? <;> simp [checks, weight, Task.weight]

theorem nodup_places (distinct : v.Distinct) : v.places.Nodup := by
  have types := distinct.types.map (f := Place.type) fun _ _ h ↦ Place.type.inj h
  have constants := distinct.constants.map (f := Place.constant) fun _ _ h ↦ Place.constant.inj h
  have members := distinct.members.map (f := Place.member) fun _ _ h ↦ Place.member.inj h
  refine List.nodup_append.mpr ⟨List.nodup_append.mpr ⟨types, constants, by simp⟩, members, ?_⟩
  simp only [List.mem_append, List.mem_map]
  rintro _ (⟨_, _, rfl⟩ | ⟨_, _, rfl⟩) _ ⟨_, _, rfl⟩ <;> nofun

/-- **What a turn costs.** -/
theorem Turn.costs (h : Turn g s task v front v') : Costs g task v v' front := by
  cases h with
  | @typeAgain key expected? d _ old =>
    refine .none ?_ rfl (weight_checks_lt _ _ _)
    rw [Task.visit?, if_pos (type_mem_places_iff.mpr (Table.mem_keys_of_find? old))]
  | @typeNew key expected? d _ new found =>
    have fresh : .type key ∉ v.places := by
      rw [type_mem_places_iff]
      exact Table.find?_eq_none_iff.mp new
    refine .visit (if_neg fresh) (type_mem_graph_places found) fresh (places_visitType new) ?_
    have checked := weight_checks_le key expected? d.tag
    simp only [Place.requirements, found, Option.map_some, Option.getD_some, weight_append, weight,
      Task.weight]
    omega
  | container => exact .none rfl rfl (by simp [weight, Task.weight])
  | constantAgain asks found old =>
    have visited := constant_mem_places_iff.mpr (Table.mem_keys_of_find? old)
    refine .none ?_ rfl (Task.weight_pos _)
    rcases asks with rfl | rfl
    · rw [Task.visit?, if_pos visited]
    · rw [Task.visit?, placeOfValue_constant found, if_pos visited]
  | @constantNew r key d _ asks found new =>
    have place := placeOfValue_constant found
    have fresh : .constant key ∉ v.places := by
      rw [constant_mem_places_iff]
      exact Table.find?_eq_none_iff.mp new
    refine .visit (p := .constant key) ?_ (place ▸ placeOfValue_mem_places found) fresh
      (places_visitConstant new) ?_
    · rcases asks with rfl | rfl
      · rw [Task.visit?, if_neg fresh]
      · rw [Task.visit?, place, if_neg fresh]
    · rcases asks with rfl | rfl <;>
        simp only [Place.requirements, found, weight_append, weight, Task.weight] <;> omega
  | memberAgain found old =>
    refine .none ?_ rfl (Task.weight_pos _)
    rw [Task.visit?, placeOfValue_enumerator found,
      if_pos (member_mem_places_iff.mpr (Table.mem_keys_of_find? old))]
  | @memberNew key d _ found new =>
    have place := placeOfValue_enumerator found
    have fresh : .member key ∉ v.places := by
      rw [member_mem_places_iff]
      exact Table.find?_eq_none_iff.mp new
    refine .visit (p := .member key) ?_ (place ▸ placeOfValue_mem_places found) fresh
      (places_visitMember new) ?_
    · rw [Task.visit?, place, if_neg fresh]
    · simp only [Place.requirements, found, weight_append, weight, Task.weight]
      omega
  | _ => exact .none rfl rfl (Task.weight_pos _)

/-! ## Many turns -/

/-- A run together with its turns, the first one first: for each of them the place that it visits,
if it visits one. -/
inductive Trace (g : Graph) (s : Scope) :
    List Task → Visits → List (Option Place) → List Task → Visits → Prop where
  | refl {tasks : List Task} {v : Visits} : Trace g s tasks v [] tasks v
  | head {task : Task} {front rest tasks : List Task} {v v' v'' : Visits}
    {turns : List (Option Place)} (first : Turn g s task v front v')
    (next : Trace g s (front ++ rest) v' turns tasks v'') :
    Trace g s (task :: rest) v (task.visit? g v :: turns) tasks v''

variable {turns : List (Option Place)}

theorem Trace.run (h : Trace g s tasks v turns tasks' v') : Run g s tasks v tasks' v' := by
  induction h with
  | refl => exact .refl
  | head first _ ih => exact .head first ih

theorem Run.exists_trace (h : Run g s tasks v tasks' v') :
    ∃ turns, Trace g s tasks v turns tasks' v' := by
  induction h with
  | refl => exact ⟨[], .refl⟩
  | head first _ ih =>
    obtain ⟨turns, next⟩ := ih
    exact ⟨_, .head first next⟩

/-- What is visited at the end of a run was visited at its start, or by one of its turns. -/
theorem Trace.places (h : Trace g s tasks v turns tasks' v') :
    v'.places.Perm (turns.reduceOption ++ v.places) := by
  induction h with
  | refl => exact List.Perm.refl _
  | head first _ ih =>
    cases first.costs with
    | visit visits _ _ adds =>
      rw [visits, List.reduceOption_cons_of_some]
      exact ih.trans ((adds.append_left _).trans List.perm_middle)
    | none visits same =>
      rw [visits, List.reduceOption_cons_of_none, ← same]
      exact ih

/-- What the declaration at a place adds to the tasks when it is visited. -/
def Place.cost (g : Graph) (p : Place) : Nat := weight ((p.requirements g).map .meet)

/-- What is to be done at most, before the tasks are all done. -/
def potential (g : Graph) (tasks : List Task) (v : Visits) : Nat :=
  weight tasks + ∑ p ∈ (places g).toFinset \ v.places.toFinset, p.cost g

theorem Turn.potential_lt (h : Turn g s task v front v') :
    potential g (front ++ rest) v' < potential g (task :: rest) v := by
  rw [potential, potential, weight_append, weight]
  cases h.costs with
  | @visit p _ there new adds weighs =>
    -- The place leaves the sum, and what it cost there pays for its requirements.
    have waiting : p ∈ (places g).toFinset \ v.places.toFinset := by simp [there, new]
    have erased : (places g).toFinset \ v'.places.toFinset =
        ((places g).toFinset \ v.places.toFinset).erase p := by
      rw [List.toFinset_eq_of_perm _ _ adds, List.toFinset_cons, sdiff_insert]
    have paid := add_sum_erase _ (Place.cost g) waiting
    rw [erased]
    change weight front < task.weight + p.cost g at weighs
    omega
  | none _ same weighs =>
    rw [same]
    omega

/-- **A run has no more turns than there is to do.** -/
theorem Trace.length_le (h : Trace g s tasks v turns tasks' v') :
    turns.length + potential g tasks' v' ≤ potential g tasks v := by
  induction h with
  | refl => simp
  | @head task front rest _ v v' _ _ first _ ih =>
    have less : potential g (front ++ rest) v' < potential g (task :: rest) v :=
      first.potential_lt
    rw [List.length_cons]
    omega

theorem weight_map_meet_le (rs : List Requirement) : weight (rs.map .meet) ≤ 5 * rs.length := by
  induction rs with
  | nil => exact Nat.le_refl 0
  | cons r rs ih =>
    have first : (Task.meet r).weight ≤ 5 := by cases r <;> simp [Task.weight]
    rw [List.map_cons, weight, List.length_cons]
    omega

/-- The number of requirements of all declarations of a graph. -/
def requirementCount (g : Graph) : Nat := ∑ p ∈ (places g).toFinset, (p.requirements g).length

/-- What there is to do for some requirements is linear in them and in what the graph lists. -/
theorem potential_le (rs : List Requirement) :
    potential g (rs.map .meet) v ≤ 5 * (rs.length + requirementCount g) := by
  have listed := weight_map_meet_le rs
  have costs : ∑ p ∈ (places g).toFinset \ v.places.toFinset, p.cost g ≤ 5 * requirementCount g :=
    calc ∑ p ∈ (places g).toFinset \ v.places.toFinset, p.cost g
      _ ≤ ∑ p ∈ (places g).toFinset, p.cost g := sum_le_sum_of_subset sdiff_subset
      _ ≤ ∑ p ∈ (places g).toFinset, 5 * (p.requirements g).length :=
        sum_le_sum fun _ _ ↦ weight_map_meet_le _
      _ = 5 * requirementCount g := (mul_sum _ _ _).symm
  rw [potential]
  omega

/-! ## Nodes

Each visit takes a number in one of the arenas, and it does so once for each key.
-/

theorem Visits.Reached.types_le (h : v.Reached g f) (distinct : v.Distinct) :
    v.types.size ≤ g.types.size := by
  rw [← Table.length_keys]
  refine Table.length_le_size distinct.types fun key hk ↦ ?_
  obtain ⟨d, visited⟩ := Table.mem_keys_iff.mp hk
  exact ⟨d, (h.types visited).2⟩

theorem Visits.Reached.values_le (h : v.Reached g f) (distinct : v.Distinct) :
    v.constants.size + v.members.size ≤ g.values.size := by
  have constants : ∀ key ∈ v.constants.keys, ∃ d, g.values.find? key = some (.constant d) := by
    intro key hk
    obtain ⟨d, visited⟩ := Table.mem_keys_iff.mp hk
    exact ⟨d, (h.constants visited).2⟩
  have members : ∀ key ∈ v.members.keys, ∃ d, g.values.find? key = some (.enumerator d) := by
    intro key hk
    obtain ⟨d, visited⟩ := Table.mem_keys_iff.mp hk
    exact ⟨d, (h.members visited).2⟩
  -- A key is not that of a constant and of an enum member.
  have nodup : (v.constants.keys ++ v.members.keys).Nodup := by
    refine List.nodup_append.mpr ⟨distinct.constants, distinct.members, ?_⟩
    rintro key hk _ hk' rfl
    obtain ⟨d, found⟩ := constants key hk
    obtain ⟨d', found'⟩ := members key hk'
    cases found.symm.trans found'
  rw [← Table.length_keys, ← Table.length_keys, ← List.length_append]
  refine Table.length_le_size nodup fun key hk ↦ ?_
  rcases List.mem_append.mp hk with hk | hk
  · obtain ⟨d, found⟩ := constants key hk
    exact ⟨_, found⟩
  · obtain ⟨d, found⟩ := members key hk
    exact ⟨_, found⟩

theorem arenaSizes_ofVisits {top : TopLevel} :
    ((Numbering.ofVisits s v).module top).arenaSize .struct +
      ((Numbering.ofVisits s v).module top).arenaSize .union +
      ((Numbering.ofVisits s v).module top).arenaSize .enum +
      ((Numbering.ofVisits s v).module top).arenaSize .interface = v.types.size := by
  simp only [Numbering.arenaSize_module, Numbering.keysOf, Numbering.ofVisits, Numbering.select,
    Table.keys, Table.size, List.length_map]
  induction v.types.entries with
  | nil => rfl
  | cons e rest ih =>
    obtain ⟨key, d⟩ := e
    cases d <;> simp only [List.filterMap_cons, Option.map_some, Option.map_none,
      List.length_cons] <;> omega

theorem constants_size_ofVisits {top : TopLevel} :
    ((Numbering.ofVisits s v).module top).declarations.constants.size = v.constants.size := by
  simp [Numbering.module, Numbering.declarations, Arena.size, Table.values, Table.size,
    Numbering.ofVisits]

theorem members_size_ofVisits {top : TopLevel} :
    ((Numbering.ofVisits s v).module top).declarations.members.size = v.members.size := by
  simp [Numbering.module, Numbering.declarations, Arena.size, Table.size, Numbering.ofVisits]

/-! ## The import closure -/

/-- Some turns of the queue: how many there are, and what is waiting and found before and after. -/
inductive Spreads (g : Graph) :
    Nat → List FileId → List FileId → List FileId → List FileId → Prop where
  | refl {waiting seen : List FileId} : Spreads g 0 waiting seen waiting seen
  | skip {n : Nat} {name : FileId} {rest seen waiting' seen' : List FileId} (old : name ∈ seen)
    (next : Spreads g n rest seen waiting' seen') :
    Spreads g (n + 1) (name :: rest) seen waiting' seen'
  | visit {n : Nat} {name : FileId} {file : SourceFile} {rest seen waiting' seen' : List FileId}
    (new : name ∉ seen) (found : g.files.find? name = some file)
    (next : Spreads g n (rest ++ file.imports.filter (· ∉ seen ++ [name])) (seen ++ [name])
      waiting' seen') :
    Spreads g (n + 1) (name :: rest) seen waiting' seen'

variable {n : Nat} {waiting seen waiting' seen' : List FileId}

theorem Spreads.spread_eq (h : Spreads g n waiting seen waiting' seen') :
    spread g waiting seen = spread g waiting' seen' := by
  induction h with
  | refl => rfl
  | skip old _ ih => rw [spread_of_old old, ih]
  | visit new found _ ih => rw [spread_of_found new found, ih]

/-- The queue comes to an end where nothing is waiting or a file is missing. -/
theorem exists_spreads (g : Graph) (waiting seen : List FileId) :
    ∃ n waiting' seen', Spreads g n waiting seen waiting' seen' ∧
      (waiting' = [] ∨
        ∃ name rest, waiting' = name :: rest ∧ name ∉ seen' ∧ g.files.find? name = none) := by
  induction waiting, seen using spread.induct g with
  | case1 seen => exact ⟨0, [], seen, .refl, Or.inl rfl⟩
  | case2 seen name rest old ih =>
    obtain ⟨n, waiting', seen', next, ended⟩ := ih
    exact ⟨n + 1, waiting', seen', .skip old next, ended⟩
  | case3 seen name rest new missing =>
    exact ⟨0, name :: rest, seen, .refl, Or.inr ⟨name, rest, rfl, new, missing⟩⟩
  | case4 seen name rest new file found ih =>
    obtain ⟨n, waiting', seen', next, ended⟩ := ih
    exact ⟨n + 1, waiting', seen', .visit new found next, ended⟩

/-- What a file of the graph imports. -/
def importsOf (g : Graph) (name : FileId) : List FileId :=
  ((g.files.find? name).map SourceFile.imports).getD []

/-- The number of imports of all files of a graph. -/
def importCount (g : Graph) : Nat := ∑ name ∈ g.files.keys.toFinset, (importsOf g name).length

/-- **The queue has no more turns than names are waiting or will be.** -/
theorem Spreads.length_le (h : Spreads g n waiting seen waiting' seen') :
    n + (waiting'.length + ∑ name ∈ g.files.keys.toFinset \ seen'.toFinset,
        (importsOf g name).length) ≤
      waiting.length + ∑ name ∈ g.files.keys.toFinset \ seen.toFinset,
        (importsOf g name).length := by
  induction h with
  | refl => rw [Nat.zero_add]
  | skip _ _ ih =>
    rw [List.length_cons]
    omega
  | @visit n name file rest seen waiting' seen' new found _ ih =>
    -- As on the walk, the imports of the file leave the sum and join what is waiting.
    have there : name ∈ g.files.keys.toFinset \ seen.toFinset := by
      simp [new, Table.mem_keys_of_find? found]
    have erased : g.files.keys.toFinset \ (seen ++ [name]).toFinset =
        (g.files.keys.toFinset \ seen.toFinset).erase name := by
      rw [List.toFinset_eq_of_perm _ _ (List.perm_append_singleton _ _), List.toFinset_cons,
        sdiff_insert]
    have paid := add_sum_erase _ (fun name ↦ (importsOf g name).length) there
    have own : importsOf g name = file.imports := by rw [importsOf, found]; rfl
    have added := List.length_filter_le (· ∉ seen ++ [name]) file.imports
    rw [erased, List.length_append] at ih
    rw [own] at paid
    rw [List.length_cons]
    omega

theorem Spreads.nodup (h : Spreads g n waiting seen waiting' seen')
    (start : seen.Nodup ∧ seen ⊆ g.files.keys) : seen'.Nodup ∧ seen' ⊆ g.files.keys := by
  induction h with
  | refl => exact start
  | skip _ _ ih => exact ih start
  | @visit _ name _ _ seen _ _ new found _ ih =>
    obtain ⟨nodup, listed⟩ := start
    refine ih ⟨?_, ?_⟩
    · exact (List.perm_append_singleton _ _).nodup_iff.mpr (List.nodup_cons.mpr ⟨new, nodup⟩)
    · refine List.append_subset.mpr ⟨listed, fun n hn ↦ ?_⟩
      rw [List.mem_singleton] at hn
      exact hn ▸ Table.mem_keys_of_find? found

/-! ## Links -/

variable {source : SourceFile} {imports : Table FileId (Module.Import Module)}

/-- What has happened so far on the walk of a file. -/
structure WalkBounded (g : Graph) (source : SourceFile) (turns : List (Option Place)) (v : Visits) :
    Prop where
  /-- There were no more turns than the file and the declarations of the graph have requirements,
  up to a factor. -/
  length : turns.length ≤ 5 * ((requirementsOfFile source).length + requirementCount g)
  /-- What is visited was visited by one of the turns. -/
  visits : v.places.Perm turns.reduceOption
  /-- No declaration was visited twice. -/
  once : turns.reduceOption.Nodup
  /-- No more types were visited than the graph has. -/
  types : v.types.size ≤ g.types.size
  /-- No more constants and enum members were visited than the graph has values. -/
  values : v.constants.size + v.members.size ≤ g.values.size

theorem Trace.bounded (hf : g.files.find? f = some source)
    (h : Trace g ⟨f, outline source imports⟩ (start source) (unbegun f source imports) turns
      tasks v) : WalkBounded g source turns v := by
  have distinct := h.run.distinct distinct_unbegun
  obtain ⟨reached, -⟩ := warranted_of_run hf h.run
  have visits : v.places.Perm turns.reduceOption := by
    have places := h.places
    rwa [show (unbegun f source imports).places = [] from rfl, List.append_nil] at places
  exact
    { length := (Nat.le_of_add_right_le h.length_le).trans (potential_le _)
      visits
      once := visits.nodup_iff.mp (nodup_places distinct)
      types := reached.types_le distinct
      values := reached.values_le distinct }

/-- **The link of a file ends, and what it does is bounded.** -/
structure Bounded (g : Graph) (f : FileId) (source : SourceFile) : Prop where
  /-- Wherever the queue has come, it made no more turns than there are imports, and it found files
  of the graph, each once. -/
  queue : ∀ n waiting seen, Spreads g n source.imports [] waiting seen →
    n ≤ source.imports.length + importCount g ∧ seen.Nodup ∧ seen ⊆ g.files.keys
  /-- It comes to an end: to the closure, or to a file that is missing. -/
  queueEnds : ∃ n waiting seen, Spreads g n source.imports [] waiting seen ∧
    (waiting = [] ∧ closure g source = .ok seen ∨
      ∃ name rest, waiting = name :: rest ∧ closure g source = .error (.missingFile name))
  /-- Wherever the walk has come, it made no more turns than there are requirements, and it visited
  declarations of the graph, each once. -/
  walk : ∀ imports turns tasks v,
    Trace g ⟨f, outline source imports⟩ (start source) (unbegun f source imports) turns tasks v →
      WalkBounded g source turns v
  /-- It comes to an end: to a module, or to a task whose turn fails. -/
  walkEnds : ∀ imports, transitiveImports g source = .ok imports → ∃ turns tasks v,
    Trace g ⟨f, outline source imports⟩ (start source) (unbegun f source imports) turns tasks v ∧
      (tasks = [] ∧ g.module f = .ok (assembled f source imports v) ∨
        ∃ task rest e, tasks = task :: rest ∧
          turn g ⟨f, outline source imports⟩ task v = .error e ∧ g.module f = .error e)
  /-- A module has no more nodes than the graph has entries. -/
  nodes : ∀ m, g.module f = .ok m →
    m.arenaSize .struct + m.arenaSize .union + m.arenaSize .enum + m.arenaSize .interface ≤
      g.types.size ∧
    m.declarations.constants.size + m.declarations.members.size ≤ g.values.size

theorem Spreads.bounded (h : Spreads g n source.imports [] waiting seen) :
    n ≤ source.imports.length + importCount g ∧ seen.Nodup ∧ seen ⊆ g.files.keys := by
  have counted := h.length_le
  rw [List.toFinset_nil, sdiff_empty, ← importCount] at counted
  exact ⟨Nat.le_of_add_right_le counted, h.nodup ⟨List.nodup_nil, List.nil_subset _⟩⟩

theorem Links.nodes_le (h : Links g f source imports v) {m : Module}
    (hm : m = assembled f source imports v) :
    m.arenaSize .struct + m.arenaSize .union + m.arenaSize .enum + m.arenaSize .interface ≤
        g.types.size ∧
      m.declarations.constants.size + m.declarations.members.size ≤ g.values.size := by
  subst hm
  have distinct := h.run.distinct distinct_unbegun
  obtain ⟨reached, -⟩ := warranted_of_run h.file h.run
  refine ⟨?_, ?_⟩
  · rw [assembled, arenaSizes_ofVisits]
    exact reached.types_le distinct
  · rw [assembled, constants_size_ofVisits, members_size_ofVisits]
    exact reached.values_le distinct

theorem bounded_of_file (hf : g.files.find? f = some source) : Bounded g f source where
  queue _ _ _ h := h.bounded
  queueEnds := by
    obtain ⟨n, waiting, seen, run, ended⟩ := exists_spreads g source.imports []
    refine ⟨n, waiting, seen, run, ?_⟩
    rw [closure, run.spread_eq]
    rcases ended with rfl | ⟨name, rest, rfl, new, missing⟩
    · exact Or.inl ⟨rfl, by rw [spread]⟩
    · exact Or.inr ⟨name, rest, rfl, spread_of_missing new missing⟩
  walk _ _ _ _ h := h.bounded hf
  walkEnds imports closed := by
    rcases exists_run g ⟨f, outline source imports⟩ (start source) (unbegun f source imports) with
      ⟨v, run⟩ | ⟨task, rest, v, e, run, failed⟩
    · obtain ⟨turns, trace⟩ := run.exists_trace
      have made := module_eq_ok_iff.mpr ⟨source, imports, v, ⟨hf, closed, run⟩, rfl⟩
      exact ⟨turns, [], v, trace, Or.inl ⟨rfl, made⟩⟩
    · obtain ⟨turns, trace⟩ := run.exists_trace
      have refused := module_eq_error_of_run hf closed run failed
      exact ⟨turns, task :: rest, v, trace, Or.inr ⟨task, rest, e, rfl, failed, refused⟩⟩
  nodes m made := by
    obtain ⟨source', imports, v, links, rfl⟩ := module_eq_ok_iff.mp made
    exact links.nodes_le rfl

end Link

open Link

/-- **Linking ends on every graph, and what it does is bounded by what the graph lists.** -/
theorem missing_or_bounded (g : Graph) (f : FileId) :
    (g.files.find? f = none ∧ g.module f = .error (.missingFile f)) ∨
      ∃ source, g.files.find? f = some source ∧ Bounded g f source := by
  cases hf : g.files.find? f with
  | none =>
    refine Or.inl ⟨rfl, ?_⟩
    rw [Graph.module, Graph.link, hf]
    rfl
  | some source => exact Or.inr ⟨source, rfl, bounded_of_file hf⟩

end IdlLinker
