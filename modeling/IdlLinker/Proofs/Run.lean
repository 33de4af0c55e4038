import IdlLinker.Link.File
import IdlLinker.Proofs.Closure
import IdlLinker.Proofs.Table

/-!
# Runs of the walk

`Link.walk` is a loop, and what it does is best said about its turns. A *run* is any number of turns
from one state of the walk to another, where a state is what there is still to do and how far the
walk has come. A walk that succeeds is a run until nothing is left to do; a walk that fails is a run
up to a task whose turn fails. Since the turns are listed by `Turn`, a property of all walks is
shown by one case for each kind of turn.

## What only grows

A visited declaration stays visited, and it is visited once. These are the first facts shown this
way.
-/

namespace IdlLinker.Link

open IdlLinker.Graph Log

variable {g : Graph} {s : Scope} {task : Task} {front rest tasks tasks' tasks'' : List Task}
  {v v' v'' : Visits}

/-! ## Turns -/

theorem turn_eq_ok_iff : turn g s task v = .ok (front, v') ↔ Turn g s task v front v' := by
  refine ⟨Turn.of_turn, fun h ↦ ?_⟩
  cases h with
  | source known => rw [turn, known]
  | literal fine => rw [turn, if_pos fine]
  | typeAgain old => rw [turn, meetType, old]
  | typeNew new found => rw [turn, meetType, new, found]
  | container => rfl
  | constantAgain asks found old =>
    rcases asks with rfl | rfl <;> simp only [turn, found, meetConstant, old]
  | constantNew asks found new =>
    rcases asks with rfl | rfl <;> simp only [turn, found, meetConstant, new]
  | memberAgain found old => simp only [turn, found, meetMember, old]
  | memberNew found new => simp only [turn, found, meetMember, new]
  | check => rw [turn, if_pos rfl]
  | typeDone => rfl
  | placed => rfl
  | constantDone => rfl
  | memberDone => rfl

theorem Turn.deterministic {front' : List Task} (h : Turn g s task v front v')
    (h' : Turn g s task v front' v'') : front = front' ∧ v' = v'' := by
  have same := (turn_eq_ok_iff.mpr h).symm.trans (turn_eq_ok_iff.mpr h')
  exact Prod.mk.inj (Except.ok.inj same)

theorem walk_nil : walk g s [] v = .ok v := by
  rw [walk]

theorem walk_of_turn (h : Turn g s task v front v') :
    walk g s (task :: rest) v = walk g s (front ++ rest) v' := by
  rw [walk]
  split
  · rename_i e failed
    rw [turn_eq_ok_iff.mpr h] at failed
    cases failed
  · rename_i front' v'' done
    obtain ⟨rfl, rfl⟩ := h.deterministic (Turn.of_turn done)
    rfl

theorem walk_of_error {e : LinkError} (h : turn g s task v = .error e) :
    walk g s (task :: rest) v = .error ⟨e, v.events⟩ := by
  rw [walk]
  split
  · rename_i e' failed
    obtain rfl := Except.error.inj (h.symm.trans failed)
    rfl
  · rename_i done
    rw [h] at done
    cases done

/-! ## Runs -/

/-- A run of the walk: some turns, one after the other. What a task turns into comes before the
rest. -/
inductive Run (g : Graph) (s : Scope) : List Task → Visits → List Task → Visits → Prop where
  | refl {tasks : List Task} {v : Visits} : Run g s tasks v tasks v
  | head {task : Task} {front rest tasks : List Task} {v v' v'' : Visits}
    (first : Turn g s task v front v') (next : Run g s (front ++ rest) v' tasks v'') :
    Run g s (task :: rest) v tasks v''

theorem Run.walk_eq (h : Run g s tasks v tasks' v') : walk g s tasks v = walk g s tasks' v' := by
  induction h with
  | refl => rfl
  | head first _ ih => rw [walk_of_turn first, ih]

theorem Run.trans (h : Run g s tasks v tasks' v') (h' : Run g s tasks' v' tasks'' v'') :
    Run g s tasks v tasks'' v'' := by
  induction h with
  | refl => exact h'
  | head first _ ih => exact .head first (ih h')

theorem Run.tail (h : Run g s tasks v (task :: rest) v') (last : Turn g s task v' front v'') :
    Run g s tasks v (front ++ rest) v'' :=
  h.trans (.head last .refl)

theorem Run.append (h : Run g s tasks v tasks' v') (rest : List Task) :
    Run g s (tasks ++ rest) v (tasks' ++ rest) v' := by
  induction h with
  | refl => exact .refl
  | head first _ ih =>
    rw [List.append_assoc] at ih
    exact .head first ih

/-- What holds at the start of a run and is kept by every turn holds at the end. -/
theorem Run.preserves {P : List Task → Visits → Prop}
    (step : ∀ {task front rest v v'}, Turn g s task v front v' → P (task :: rest) v →
      P (front ++ rest) v') (h : Run g s tasks v tasks' v') (start : P tasks v) : P tasks' v' := by
  induction h with
  | refl => exact start
  | head first _ ih => exact ih (step first start)

/-! ## Walks as runs -/

/-- A run comes to an end where nothing is left to do or a turn fails. -/
theorem exists_run (g : Graph) (s : Scope) (tasks : List Task) (v : Visits) :
    (∃ v', Run g s tasks v [] v') ∨
      ∃ task rest v' e, Run g s tasks v (task :: rest) v' ∧ turn g s task v' = .error e := by
  -- Along the recursion of the walk itself: that it ends is what makes one of the two happen.
  induction tasks, v using walk.induct g s with
  | case1 v => exact Or.inl ⟨v, .refl⟩
  | case2 v task rest e failed => exact Or.inr ⟨task, rest, v, e, .refl, failed⟩
  | case3 v task rest front v' done ih =>
    have first := Turn.of_turn done
    rcases ih with ⟨v'', next⟩ | ⟨task', rest', v'', e, next, failed⟩
    · exact Or.inl ⟨v'', .head first next⟩
    · exact Or.inr ⟨task', rest', v'', e, .head first next, failed⟩

/-- **A walk succeeds by a run to the end.** -/
theorem walk_eq_ok_iff : walk g s tasks v = .ok v' ↔ Run g s tasks v [] v' := by
  constructor
  · intro h
    rcases exists_run g s tasks v with ⟨v'', run⟩ | ⟨task, rest, v'', e, run, failed⟩
    · rw [run.walk_eq, walk_nil] at h
      exact Except.ok.inj h ▸ run
    · rw [run.walk_eq, walk_of_error failed] at h
      cases h
  · intro run
    rw [run.walk_eq, walk_nil]

/-- **A walk fails by a run to a task whose turn fails.** -/
theorem walk_eq_error_iff {failure : Failure} :
    walk g s tasks v = .error failure ↔
      ∃ task rest v', Run g s tasks v (task :: rest) v' ∧
        turn g s task v' = .error failure.error ∧ v'.events = failure.events := by
  constructor
  · intro h
    rcases exists_run g s tasks v with ⟨v'', run⟩ | ⟨task, rest, v'', e, run, failed⟩
    · rw [run.walk_eq, walk_nil] at h
      cases h
    · rw [run.walk_eq, walk_of_error failed] at h
      obtain rfl := Except.error.inj h
      exact ⟨task, rest, v'', run, failed, rfl⟩
  · rintro ⟨task, rest, v', run, failed, events⟩
    rw [run.walk_eq, walk_of_error failed, events]

/-! ## What only grows -/

/-- Everything visited is still visited, and has the same declaration. -/
structure Visits.Grows (v v' : Visits) : Prop where
  types : ∀ {key d}, v.types.find? key = some d → v'.types.find? key = some d
  constants : ∀ {key d}, v.constants.find? key = some d → v'.constants.find? key = some d
  members : ∀ {key d}, v.members.find? key = some d → v'.members.find? key = some d

theorem Visits.Grows.refl (v : Visits) : v.Grows v := ⟨id, id, id⟩

theorem Visits.Grows.trans (h : v.Grows v') (h' : v'.Grows v'') : v.Grows v'' :=
  ⟨fun k ↦ h'.types (h.types k), fun k ↦ h'.constants (h.constants k),
    fun k ↦ h'.members (h.members k)⟩

theorem Turn.grows (h : Turn g s task v front v') : v.Grows v' := by
  cases h with
  | typeNew new found => exact ⟨Table.find?_insert_of_new new, id, id⟩
  | constantNew asks found new => exact ⟨id, Table.find?_insert_of_new new, id⟩
  | memberNew found new => exact ⟨id, id, Table.find?_insert_of_new new⟩
  | _ => exact ⟨id, id, id⟩

theorem Run.grows (h : Run g s tasks v tasks' v') : v.Grows v' := by
  induction h with
  | refl => exact .refl _
  | head first _ ih => exact first.grows.trans ih

/-! ## What is visited once -/

/-- Nothing is visited twice. -/
structure Visits.Distinct (v : Visits) : Prop where
  types : v.types.keys.Nodup
  constants : v.constants.keys.Nodup
  members : v.members.keys.Nodup

theorem Turn.distinct (h : Turn g s task v front v') (hv : v.Distinct) : v'.Distinct := by
  cases h with
  | typeNew => exact { hv with types := Table.nodup_keys_insert _ _ hv.types }
  | constantNew => exact { hv with constants := Table.nodup_keys_insert _ _ hv.constants }
  | memberNew => exact { hv with members := Table.nodup_keys_insert _ _ hv.members }
  | _ => exact { hv with }

theorem Run.distinct (h : Run g s tasks v tasks' v') (hv : v.Distinct) : v'.Distinct :=
  h.preserves (P := fun _ v ↦ v.Distinct) Turn.distinct hv

/-! ## Linking a file -/

/-- What there is to do for a file. -/
def start (source : SourceFile) : List Task := (requirementsOfFile source).map .meet

/-- Nothing is visited yet. -/
def unbegun (f : FileId) (source : SourceFile) (imports : Table FileId (Module.Import Module)) :
    Visits :=
  { events := [closureEvent source.fileName imports.size, beginEvent f] }

variable {f : FileId} {source : SourceFile} {imports : Table FileId (Module.Import Module)}

theorem distinct_unbegun : (unbegun f source imports).Distinct :=
  ⟨List.nodup_nil, List.nodup_nil, List.nodup_nil⟩

/-- How a file is linked: its imports are found, and the walk comes to its end. -/
structure Links (g : Graph) (f : FileId) (source : SourceFile)
    (imports : Table FileId (Module.Import Module)) (v : Visits) : Prop where
  file : g.files.find? f = some source
  closed : transitiveImports g source = .ok imports
  run : Run g ⟨f, outline source imports⟩ (start source) (unbegun f source imports) [] v

theorem Links.distinct (h : Links g f source imports v) : v.Distinct :=
  h.run.distinct distinct_unbegun

/-- The module that a finished walk is assembled to. -/
def assembled (f : FileId) (source : SourceFile) (imports : Table FileId (Module.Import Module))
    (v : Visits) : Module :=
  (Numbering.ofVisits ⟨f, outline source imports⟩ v).module (source.declared?.getD {})

/-- **A file has a module exactly when a walk comes to its end.** -/
theorem module_eq_ok_iff {m : Module} :
    g.module f = .ok m ↔
      ∃ source imports v, Links g f source imports v ∧ m = assembled f source imports v := by
  rw [Graph.module, Graph.link]
  constructor
  · intro h
    split at h
    · cases h
    · rename_i source file
      split at h
      · cases h
      · rename_i imports closed
        dsimp only at h
        split at h
        · cases h
        · rename_i v walked
          exact ⟨source, imports, v, ⟨file, closed, walk_eq_ok_iff.mp walked⟩,
            (Except.ok.inj h).symm⟩
  · rintro ⟨source, imports, v, ⟨file, closed, run⟩, rfl⟩
    have walked := walk_eq_ok_iff.mpr run
    rw [start, unbegun] at walked
    simp only [file, closed, walked]
    rfl

theorem exists_module_of_isSome (h : (g.module f).toOption.isSome = true) :
    ∃ m, g.module f = .ok m := by
  cases linked : g.module f with
  | error e =>
    rw [linked] at h
    cases h
  | ok m => exact ⟨m, rfl⟩

/-- A file has no module when it is missing, an import is missing, or a turn of the walk fails. -/
theorem of_module_eq_error {e : LinkError} (h : g.module f = .error e) :
    (g.files.find? f = none ∧ e = .missingFile f) ∨
      ∃ source, g.files.find? f = some source ∧
        (closure g source = .error e ∨
          ∃ imports task rest v, transitiveImports g source = .ok imports ∧
            Run g ⟨f, outline source imports⟩ (start source) (unbegun f source imports)
              (task :: rest) v ∧
            turn g ⟨f, outline source imports⟩ task v = .error e) := by
  rw [Graph.module, Graph.link] at h
  split at h
  · rename_i missing
    exact Or.inl ⟨missing, (Except.error.inj h).symm⟩
  · rename_i source file
    refine Or.inr ⟨source, file, ?_⟩
    split at h
    · rename_i e' failed
      obtain rfl := Except.error.inj h
      exact Or.inl (closure_error_of_transitiveImports failed)
    · rename_i imports closed
      dsimp only at h
      split at h
      · rename_i failure failed
        obtain rfl := Except.error.inj h
        obtain ⟨task, rest, v, run, failed, -⟩ := walk_eq_error_iff.mp failed
        exact Or.inr ⟨imports, task, rest, v, closed, run, failed⟩
      · cases h

theorem module_eq_error_of_missing (missing : g.files.find? f = none) :
    g.module f = .error (.missingFile f) := by
  rw [Graph.module, Graph.link, missing]
  rfl

theorem module_eq_error_of_closure {e : LinkError} (file : g.files.find? f = some source)
    (failed : closure g source = .error e) : g.module f = .error e := by
  have unfound : transitiveImports g source = .error e := by
    rw [transitiveImports, failed]
    rfl
  rw [Graph.module, Graph.link]
  simp only [file, unfound]
  rfl

theorem module_eq_error_of_run {e : LinkError} (file : g.files.find? f = some source)
    (closed : transitiveImports g source = .ok imports)
    (run : Run g ⟨f, outline source imports⟩ (start source) (unbegun f source imports)
      (task :: rest) v)
    (failed : turn g ⟨f, outline source imports⟩ task v = .error e) : g.module f = .error e := by
  have walked : walk g ⟨f, outline source imports⟩ (start source) (unbegun f source imports) =
      .error ⟨e, v.events⟩ := walk_eq_error_iff.mpr ⟨task, rest, v, run, failed, rfl⟩
  rw [start, unbegun] at walked
  rw [Graph.module, Graph.link]
  simp only [file, closed, walked]
  rfl

end IdlLinker.Link
