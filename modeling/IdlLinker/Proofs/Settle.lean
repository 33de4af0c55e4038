import IdlLinker.Proofs.Defect

/-!
# The walk leaves nothing out

When a walk comes to its end, every requirement that it ever had on its list is met: what has to be
visited is visited, and is of the expected kind. In particular the requirements of each visited
declaration are met, since they were put on the list when it was visited. So the visits are closed
under what declarations name, and they hold everything that the file reaches.

## Looking back from the end

A requirement is met at the end of the walk, not when its turn is over: what its turn puts in front
comes after, and the check of a kind comes later still. The induction therefore goes along the run
with the *final* visits fixed, and asks of every task on the list that it will have been done. No
word is needed for what is still pending.
-/

namespace IdlLinker

open IdlLinker.Graph

namespace Link

variable {g : Graph} {f : FileId} {s : Scope} {task : Task} {front rest tasks : List Task}
  {v v' final : Visits} {rs : List Requirement} {r : Requirement} {u : Use}

/-! ## What it is to be met -/

/-- The use of a declaration is covered: the declaration is visited, and is of the kind that the
use requires. -/
inductive Visits.Covers (v : Visits) : Use → Prop where
  | type {key : TypeKey} {expected? : Option TypeTag} {d : TypeDecl}
    (visited : v.types.find? key = some d) (fits : ∀ expected ∈ expected?, d.tag = expected) :
    Covers v (.type key expected?)
  | constant {key : ValueKey} {d : Constant} (visited : v.constants.find? key = some d) :
    Covers v (.constant key)
  | valueConstant {key : ValueKey} {d : Constant} (visited : v.constants.find? key = some d) :
    Covers v (.value key)
  | valueMember {key : ValueKey} {d : Enumerator} (visited : v.members.find? key = some d) :
    Covers v (.value key)

/-- A requirement is met by what is visited. -/
structure Requirement.Met (s : Scope) (v : Visits) (r : Requirement) : Prop where
  use : ∀ {u}, r.use? = some u → v.Covers u
  source : ∀ {name source?}, r = .source name source? → s.sourceError? name source? = none
  literal : ∀ {l}, r = .literal l → l.isRepresentable = true

theorem Requirement.met_of_covers (hu : r.use? = some u) (h : v.Covers u) : r.Met s v where
  use hu' := Option.some.inj (hu.symm.trans hu') ▸ h
  source := by
    rintro name source? rfl
    cases hu
  literal := by
    rintro l rfl
    cases hu

/-- A task is done, as far as it asks for something. -/
def Task.Met (s : Scope) (v : Visits) : Task → Prop
  | .meet r => r.Met s v
  | .check _ expected actual => actual = expected
  | _ => True

/-! ## Tasks are done in the end -/

/-- A type that is visited in the end covers its use when the check after it is done. -/
theorem covers_of_checks {key : TypeKey} {expected? : Option TypeTag} {d : TypeDecl}
    (visited : final.types.find? key = some d)
    (checked : ∀ t ∈ checks key expected? d.tag, t.Met s final) :
    final.Covers (.type key expected?) := by
  refine .type visited fun expected he ↦ ?_
  exact checked (.check key expected d.tag)
    (List.mem_map.mpr ⟨expected, Option.mem_toList.mpr he, rfl⟩)

theorem covers_of_asks {key : ValueKey} {d : Constant}
    (asks : r = .constant key ∨ r = .value key) (visited : final.constants.find? key = some d) :
    r.Met s final := by
  rcases asks with rfl | rfl
  · exact Requirement.met_of_covers rfl (.constant visited)
  · exact Requirement.met_of_covers rfl (.valueConstant visited)

/-- A task is done when what it turns into is done in the end. -/
theorem Turn.met (h : Turn g s task v front v') (later : v'.Grows final)
    (hf : ∀ t ∈ front, t.Met s final) : task.Met s final := by
  cases h with
  | source known =>
    refine ⟨nofun, fun hr ↦ ?_, nofun⟩
    cases hr
    exact known
  | literal fine =>
    refine ⟨nofun, nofun, fun hr ↦ ?_⟩
    cases hr
    exact fine
  | typeAgain old => exact Requirement.met_of_covers rfl (covers_of_checks (later.types old) hf)
  | typeNew new found =>
    -- The check stands behind the requirements; the type was visited before either.
    have visited := later.types (Table.find?_insert_self v.types _ _)
    obtain ⟨-, others⟩ := List.forall_mem_append.mp hf
    exact Requirement.met_of_covers rfl
      (covers_of_checks visited (List.forall_mem_cons.mp others).2)
  | container =>
    have inner : Requirement.Met s final _ := (List.forall_mem_cons.mp hf).1
    exact Requirement.met_of_covers rfl (inner.use rfl)
  | constantAgain asks found old => exact covers_of_asks asks (later.constants old)
  | constantNew asks found new =>
    exact covers_of_asks asks (later.constants (Table.find?_insert_self v.constants _ _))
  | memberAgain found old =>
    exact Requirement.met_of_covers rfl (.valueMember (later.members old))
  | memberNew found new =>
    have visited := later.members (Table.find?_insert_self v.members _ _)
    exact Requirement.met_of_covers rfl (.valueMember visited)
  | check => exact rfl
  | _ => exact trivial

/-- **When a run comes to its end, every task is done.** -/
theorem Run.met (h : Run g s tasks v [] final) : ∀ t ∈ tasks, t.Met s final := by
  -- The induction keeps the final visits; the tasks at the end have to be a variable for it.
  generalize ended : ([] : List Task) = left at h
  induction h with
  | refl => exact ended ▸ fun t ht ↦ absurd ht List.not_mem_nil
  | head first next ih =>
    obtain ⟨front, rest⟩ := List.forall_mem_append.mp (ih ended)
    exact List.forall_mem_cons.mpr ⟨first.met next.grows front, rest⟩

/-! ## Requirements of what is visited -/

/-- The requirements of everything visited since then are met by what is visited now. -/
structure Visits.SettledSince (s : Scope) (v now : Visits) : Prop where
  types : ∀ {key d}, now.types.find? key = some d →
    v.types.find? key = some d ∨ ∀ r ∈ requirementsOfTypeDecl key d, r.Met s now
  constants : ∀ {key d}, now.constants.find? key = some d →
    v.constants.find? key = some d ∨ ∀ r ∈ requirementsOfConstant d, r.Met s now
  members : ∀ {key d}, now.members.find? key = some d →
    v.members.find? key = some d ∨ ∀ r ∈ requirementsOfEnumerator d, r.Met s now

theorem met_of_map_meet (h : ∀ t ∈ rs.map Task.meet ++ rest, t.Met s v) : ∀ r ∈ rs, r.Met s v :=
  fun r hr ↦ h (.meet r) (List.mem_append_left _ (List.mem_map_of_mem hr))

/-- What is settled since the end of a turn is settled since its start: what the turn visits, it
settles. -/
theorem Turn.settledSince (h : Turn g s task v front v') (hf : ∀ t ∈ front, t.Met s final)
    (since : v'.SettledSince s final) : v.SettledSince s final := by
  cases h with
  | typeNew new found =>
    refine { since with
      types := fun visited ↦ Table.or_of_find?_insert (since.types visited) ?_ }
    rintro rfl rfl
    exact met_of_map_meet hf
  | constantNew asks found new =>
    refine { since with
      constants := fun visited ↦ Table.or_of_find?_insert (since.constants visited) ?_ }
    rintro rfl rfl
    exact met_of_map_meet hf
  | memberNew found new =>
    refine { since with
      members := fun visited ↦ Table.or_of_find?_insert (since.members visited) ?_ }
    rintro rfl rfl
    exact met_of_map_meet hf
  | _ => exact { since with }

/-- **When a run comes to its end, everything visited on it is settled.** -/
theorem Run.settledSince (h : Run g s tasks v [] final) : v.SettledSince s final := by
  generalize ended : ([] : List Task) = left at h
  induction h with
  | refl => exact ⟨Or.inl, Or.inl, Or.inl⟩
  | head first next ih =>
    subst ended
    obtain ⟨front, -⟩ := List.forall_mem_append.mp next.met
    exact first.settledSince front (ih rfl)

/-! ## What a finished walk holds -/

section

variable {source : SourceFile} {imports : Table FileId (Module.Import Module)}

theorem Links.reached (h : Links g f source imports v) : v.Reached g f :=
  (warranted_of_run h.file h.run).1

theorem Links.met_type (h : Links g f source imports v) {key : TypeKey} {d : TypeDecl}
    (visited : v.types.find? key = some d) :
    ∀ r ∈ requirementsOfTypeDecl key d, r.Met ⟨f, outline source imports⟩ v :=
  (h.run.settledSince.types visited).resolve_left (by rintro ⟨⟩)

theorem Links.met_constant (h : Links g f source imports v) {key : ValueKey} {d : Constant}
    (visited : v.constants.find? key = some d) :
    ∀ r ∈ requirementsOfConstant d, r.Met ⟨f, outline source imports⟩ v :=
  (h.run.settledSince.constants visited).resolve_left (by rintro ⟨⟩)

theorem Links.met_member (h : Links g f source imports v) {key : ValueKey} {d : Enumerator}
    (visited : v.members.find? key = some d) :
    ∀ r ∈ requirementsOfEnumerator d, r.Met ⟨f, outline source imports⟩ v :=
  (h.run.settledSince.members visited).resolve_left (by rintro ⟨⟩)

theorem Links.covers_of_type (h : Links g f source imports v) {key : TypeKey}
    {expected? : Option TypeTag} {d : TypeDecl} (covered : v.Covers (.type key expected?))
    (found : g.types.find? key = some d) (uses : d.Uses u) : v.Covers u := by
  obtain ⟨visited, -⟩ := covered
  obtain rfl := Option.some.inj (found.symm.trans (h.reached.types visited).2)
  obtain ⟨r, hr, asks⟩ := asks_requirementsOfTypeDecl.mpr uses
  exact (h.met_type visited r hr).use asks

theorem Links.covers_of_constant (h : Links g f source imports v) {key : ValueKey} {d : Constant}
    (covered : v.Covers (.constant key)) (found : g.values.find? key = some (.constant d))
    (uses : (ValueDecl.constant d).Uses u) : v.Covers u := by
  cases covered with
  | constant visited =>
    cases found.symm.trans (h.reached.constants visited).2
    obtain ⟨r, hr, asks⟩ := asks_requirementsOfConstant.mpr uses
    exact (h.met_constant visited r hr).use asks

theorem Links.covers_of_value (h : Links g f source imports v) {key : ValueKey} {d : ValueDecl}
    (covered : v.Covers (.value key)) (found : g.values.find? key = some d) (uses : d.Uses u) :
    v.Covers u := by
  cases covered with
  | valueConstant visited =>
    cases found.symm.trans (h.reached.constants visited).2
    exact h.covers_of_constant (.constant visited) found uses
  | valueMember visited =>
    cases found.symm.trans (h.reached.members visited).2
    obtain ⟨r, hr, asks⟩ := asks_requirementsOfEnumerator.mpr uses
    exact (h.met_member visited r hr).use asks

/-- **Every use that the file reaches is covered in the end.** -/
theorem Links.covers (h : Links g f source imports v) (hu : g.Reaches f u) : v.Covers u := by
  -- Along the way from the file: what covers a use is visited, so its requirements are met.
  induction hu with
  | @declared source' d u hf hd listed =>
    obtain rfl : source = source' := Option.some.inj (h.file.symm.trans hf)
    obtain ⟨r, hr, asks⟩ := asks_requirementsOfFile.mpr ⟨d, hd, listed⟩
    have met : r.Met _ v := h.run.met (.meet r) (List.mem_map_of_mem hr)
    exact met.use asks
  | type _ found uses ih => exact h.covers_of_type ih found uses
  | constant _ found uses ih => exact h.covers_of_constant ih found uses
  | value _ found uses ih => exact h.covers_of_value ih found uses

theorem Links.find?_types_of_covers (h : Links g f source imports v) {key : TypeKey}
    {expected? : Option TypeTag} {d : TypeDecl} (covered : v.Covers (.type key expected?))
    (found : g.types.find? key = some d) : v.types.find? key = some d := by
  obtain ⟨visited, -⟩ := covered
  rw [visited, ← (h.reached.types visited).2, found]

theorem Links.find?_constants_of_covers (h : Links g f source imports v) {key : ValueKey}
    {d : Constant} (covered : v.Covers (.constant key) ∨ v.Covers (.value key))
    (found : g.values.find? key = some (.constant d)) : v.constants.find? key = some d := by
  rcases covered with covered | covered
  · cases covered with
    | constant visited =>
      cases found.symm.trans (h.reached.constants visited).2
      exact visited
  · cases covered with
    | valueConstant visited =>
      cases found.symm.trans (h.reached.constants visited).2
      exact visited
    | valueMember visited => cases found.symm.trans (h.reached.members visited).2

theorem Links.find?_members_of_covers (h : Links g f source imports v) {key : ValueKey}
    {d : Enumerator} (covered : v.Covers (.value key))
    (found : g.values.find? key = some (.enumerator d)) : v.members.find? key = some d := by
  cases covered with
  | valueConstant visited => cases found.symm.trans (h.reached.constants visited).2
  | valueMember visited =>
    cases found.symm.trans (h.reached.members visited).2
    exact visited

/-- **The types visited in the end are those that the file reaches.** -/
theorem Links.find?_types_iff (h : Links g f source imports v) {key : TypeKey} {d : TypeDecl} :
    v.types.find? key = some d ↔ g.ReachesType f key d := by
  refine ⟨h.reached.types, ?_⟩
  rintro ⟨⟨expected?, reached⟩, found⟩
  exact h.find?_types_of_covers (h.covers reached) found

/-- **The constants visited in the end are those that the file reaches.** -/
theorem Links.find?_constants_iff (h : Links g f source imports v) {key : ValueKey}
    {d : Constant} : v.constants.find? key = some d ↔ g.ReachesConstant f key d := by
  refine ⟨h.reached.constants, ?_⟩
  rintro ⟨reached, found⟩
  exact h.find?_constants_of_covers (reached.imp h.covers h.covers) found

/-- **The enum members visited in the end are those that the file reaches.** -/
theorem Links.find?_members_iff (h : Links g f source imports v) {key : ValueKey}
    {d : Enumerator} : v.members.find? key = some d ↔ g.ReachesMember f key d := by
  refine ⟨h.reached.members, ?_⟩
  rintro ⟨reached, found⟩
  exact h.find?_members_of_covers (h.covers reached) found

end

end Link

end IdlLinker
