import IdlLinker.Proofs.Requirement
import IdlLinker.Proofs.Run

/-!
# The walk stays within what is reached

Nothing is done on a walk without a reason: every requirement that is still to be met comes from a
declaration that the file reaches, and so does every check. Such a task is *warranted*. From the
tasks the property passes to the visits: what is visited is reached.

The tasks alone carry the induction. When a declaration is visited, the task that led there is
warranted, so the declaration is reached, so its requirements are warranted in turn; and they are
all that comes in front.

This is one half of what links `Reach` to the walk: nothing is visited that is not reached, and an
error that ends the walk is about something that the file really leads to. The other half, that
everything reached is visited, is about finished walks only and is in `Settle`.
-/

namespace IdlLinker.Link

open IdlLinker.Graph

variable {g : Graph} {f : FileId} {s : Scope} {task : Task} {front rest tasks tasks' : List Task}
  {v v' : Visits} {rs : List Requirement} {r : Requirement}

/-! ## Warranted requirements -/

/-- A requirement comes from the file itself or from a declaration that it reaches. -/
structure Requirement.Warranted (g : Graph) (f : FileId) (r : Requirement) : Prop where
  use : ∀ {u}, r.use? = some u → g.Reaches f u
  source : ∀ {name source?}, r = .source name source? →
    ∃ d, g.ReachesInfo f d ∧ d.shortName = name ∧ d.source? = source?
  literal : ∀ {l}, r = .literal l → g.ReachesLiteral f l
  container : ∀ {enum key}, r = .container enum key →
    ∃ e, g.types.find? enum = some (.enum e) ∧ e.info.container? = some key

/-- What a type that is reached requires is warranted. -/
theorem warranted_requirementsOfTypeDecl {key : TypeKey} {d : TypeDecl}
    (h : g.ReachesType f key d) (hr : r ∈ requirementsOfTypeDecl key d) : r.Warranted g f where
  use hu := h.uses (asks_requirementsOfTypeDecl.mp ⟨r, hr, hu⟩)
  source := by
    rintro name source? rfl
    obtain ⟨rfl, rfl⟩ := source_mem_requirementsOfTypeDecl.mp hr
    exact ⟨d.info, .type h, rfl, rfl⟩
  literal := by
    rintro l rfl
    exact .type h (literal_mem_requirementsOfTypeDecl.mp hr)
  container := by
    rintro enum container rfl
    obtain ⟨rfl, e, rfl, hc⟩ := container_mem_requirementsOfTypeDecl.mp hr
    exact ⟨e, h.2, hc⟩

theorem warranted_requirementsOfConstant {key : ValueKey} {d : Constant}
    (h : g.ReachesConstant f key d) (hr : r ∈ requirementsOfConstant d) : r.Warranted g f where
  use hu := h.uses (asks_requirementsOfConstant.mp ⟨r, hr, hu⟩)
  source := by
    rintro name source? rfl
    obtain ⟨rfl, rfl⟩ := source_mem_requirementsOfConstant.mp hr
    exact ⟨d.info, .constant h, rfl, rfl⟩
  literal := by
    rintro l rfl
    exact .constant h (literal_mem_requirementsOfConstant.mp hr)
  container := by
    rintro enum container rfl
    simp [requirementsOfConstant, requirementOfSource] at hr

/-- A requirement that is about a use is warranted when the use is reached. -/
theorem Requirement.warranted_of_reaches {u : Use} (hu : r.use? = some u) (h : g.Reaches f u)
    (hc : ∀ enum key, r ≠ .container enum key) : r.Warranted g f where
  use hu' := Option.some.inj (hu.symm.trans hu') ▸ h
  source := by
    rintro name source? rfl
    cases hu
  literal := by
    rintro l rfl
    cases hu
  container := by
    rintro enum key rfl
    exact absurd rfl (hc enum key)

theorem Requirement.warranted_type {key : TypeKey} {expected? : Option TypeTag}
    (h : g.Reaches f (.type key expected?)) : (type key expected?).Warranted g f := by
  refine warranted_of_reaches rfl h fun enum container same ↦ ?_
  cases same

theorem warranted_requirementsOfEnumerator {key : ValueKey} {d : Enumerator}
    (h : g.ReachesMember f key d) (hr : r ∈ requirementsOfEnumerator d) : r.Warranted g f := by
  rw [requirementsOfEnumerator, List.mem_singleton] at hr
  subst hr
  exact Requirement.warranted_type (h.uses .memberEnum)

theorem warranted_requirementsOfFile {source : SourceFile} (hf : g.files.find? f = some source)
    (hr : r ∈ requirementsOfFile source) : r.Warranted g f := by
  rcases exists_use_of_mem_requirementsOfFile hr with ⟨key, expected?, rfl⟩ | ⟨key, rfl⟩
  · obtain ⟨d, hd, hu⟩ := asks_requirementsOfFile.mp ⟨_, hr, rfl⟩
    exact Requirement.warranted_type (.declared hf hd hu)
  · obtain ⟨d, hd, hu⟩ := asks_requirementsOfFile.mp ⟨_, hr, rfl⟩
    refine Requirement.warranted_of_reaches rfl (.declared hf hd hu) fun enum container same ↦ ?_
    cases same

/-! ## Warranted tasks -/

/-- A task comes from a declaration that the file reaches. What ends a declaration has nothing to
come from. -/
def Task.Warranted (g : Graph) (f : FileId) : Task → Prop
  | .meet r => r.Warranted g f
  | .check key expected actual =>
    g.Reaches f (.type key (some expected)) ∧ ∃ d, g.types.find? key = some d ∧ d.tag = actual
  | _ => True

theorem warranted_map_meet (h : ∀ r ∈ rs, r.Warranted g f) :
    ∀ t ∈ rs.map Task.meet, t.Warranted g f := by
  intro t ht
  obtain ⟨r, hr, rfl⟩ := List.mem_map.mp ht
  exact h r hr

theorem warranted_checks {key : TypeKey} {expected? : Option TypeTag} {d : TypeDecl}
    (reached : g.Reaches f (.type key expected?)) (found : g.types.find? key = some d) :
    ∀ t ∈ checks key expected? d.tag, t.Warranted g f := by
  intro t ht
  obtain ⟨expected, he, rfl⟩ := List.mem_map.mp ht
  rw [Option.mem_toList] at he
  exact ⟨he ▸ reached, d, found, rfl⟩

/-- Everything visited is reached. -/
structure Visits.Reached (g : Graph) (f : FileId) (v : Visits) : Prop where
  types : ∀ {key d}, v.types.find? key = some d → g.ReachesType f key d
  constants : ∀ {key d}, v.constants.find? key = some d → g.ReachesConstant f key d
  members : ∀ {key d}, v.members.find? key = some d → g.ReachesMember f key d

/-- A use of a constant that is warranted reaches the constant. -/
theorem reachesConstant_of_asks {key : ValueKey} {d : Constant} (h : r.Warranted g f)
    (asks : r = .constant key ∨ r = .value key)
    (found : g.values.find? key = some (.constant d)) : g.ReachesConstant f key d := by
  rcases asks with rfl | rfl
  · exact ⟨Or.inl (h.use rfl), found⟩
  · exact ⟨Or.inr (h.use rfl), found⟩

/-- What a warranted task turns into is warranted. -/
theorem Turn.warranted (h : Turn g s task v front v') (hv : v.Reached g f)
    (ht : task.Warranted g f) : ∀ t ∈ front, t.Warranted g f := by
  cases h with
  | typeAgain old => exact warranted_checks (ht.use rfl) (hv.types old).2
  | @typeNew key expected? d _ new found =>
    have reached : g.Reaches f (.type key expected?) := ht.use rfl
    intro t hmem
    -- In front come the requirements of the type, its end, and the check of its kind.
    rcases List.mem_append.mp hmem with hmem | hmem
    · refine warranted_map_meet (fun r hr ↦ ?_) t hmem
      exact warranted_requirementsOfTypeDecl ⟨⟨_, reached⟩, found⟩ hr
    · rcases List.mem_cons.mp hmem with rfl | hmem
      · exact trivial
      · exact warranted_checks reached found t hmem
  | @container enum key _ =>
    have reached : g.Reaches f (.type key none) := ht.use rfl
    intro t hmem
    rcases List.mem_pair.mp hmem with rfl | rfl
    · exact Requirement.warranted_type reached
    · exact trivial
  | constantNew asks found new =>
    have reached := reachesConstant_of_asks ht asks found
    intro t hmem
    rcases List.mem_append.mp hmem with hmem | hmem
    · exact warranted_map_meet (fun r hr ↦ warranted_requirementsOfConstant reached hr) t hmem
    · rw [List.mem_singleton] at hmem
      exact hmem ▸ trivial
  | @memberNew key d _ found new =>
    have reached : g.ReachesMember f key d := ⟨ht.use rfl, found⟩
    intro t hmem
    rcases List.mem_append.mp hmem with hmem | hmem
    · exact warranted_map_meet (fun r hr ↦ warranted_requirementsOfEnumerator reached hr) t hmem
    · rw [List.mem_singleton] at hmem
      exact hmem ▸ trivial
  | _ => exact fun t ht ↦ absurd ht List.not_mem_nil

theorem Turn.reached (h : Turn g s task v front v') (hv : v.Reached g f)
    (ht : task.Warranted g f) : v'.Reached g f := by
  cases h with
  | typeNew new found =>
    refine { hv with types := fun h ↦ ?_ }
    rcases Table.of_find?_insert h with ⟨rfl, rfl⟩ | h
    · exact ⟨⟨_, ht.use rfl⟩, found⟩
    · exact hv.types h
  | constantNew asks found new =>
    refine { hv with constants := fun h ↦ ?_ }
    rcases Table.of_find?_insert h with ⟨rfl, rfl⟩ | h
    · exact reachesConstant_of_asks ht asks found
    · exact hv.constants h
  | memberNew found new =>
    refine { hv with members := fun h ↦ ?_ }
    rcases Table.of_find?_insert h with ⟨rfl, rfl⟩ | h
    · exact ⟨ht.use rfl, found⟩
    · exact hv.members h
  | _ => exact { hv with }

/-! ## Runs -/

/-- **A run stays within what is reached.** -/
theorem Run.warranted (h : Run g s tasks v tasks' v') (hv : v.Reached g f)
    (ht : ∀ t ∈ tasks, t.Warranted g f) : v'.Reached g f ∧ ∀ t ∈ tasks', t.Warranted g f := by
  refine h.preserves (P := fun tasks v ↦ v.Reached g f ∧ ∀ t ∈ tasks, t.Warranted g f) ?_ ⟨hv, ht⟩
  rintro task front rest v v' turn ⟨hv, ht⟩
  obtain ⟨first, others⟩ := List.forall_mem_cons.mp ht
  exact ⟨turn.reached hv first, List.forall_mem_append.mpr ⟨turn.warranted hv first, others⟩⟩

variable {source : SourceFile} {imports : Table FileId (Module.Import Module)}

theorem reached_unbegun : (unbegun f source imports).Reached g f where
  types h := by cases h
  constants h := by cases h
  members h := by cases h

/-- What is done for a file is warranted from the start to the end. -/
theorem warranted_of_run (hf : g.files.find? f = some source)
    (h : Run g s (start source) (unbegun f source imports) tasks v) :
    v.Reached g f ∧ ∀ t ∈ tasks, t.Warranted g f :=
  h.warranted reached_unbegun (warranted_map_meet fun _ ↦ warranted_requirementsOfFile hf)

end IdlLinker.Link
