import IdlLinker.Proofs.Path.Text

/-!
# Routes between absolute paths

Between two paths from the root there is always a route: climb to the last directory that the two
share, and descend from there. That is what `Path.relative` writes down, and nothing shorter leads
there, because a sequence that climbs less often stays in a directory that the path does not go
through, and one that climbs more often has to name what it left (`relative_leadsShortest`).

Everything is said of texts, since texts are what a module holds. In between the proofs speak of
directories, which are lists of names: a path from the root is one directory, and the route leads
from one directory to another.
-/

namespace IdlLinker.Path

/-- A text climbs so often and then follows names, it leads from one path to another, and nothing
that climbs and follows names does so with fewer steps. -/
structure LeadsShortest (base path : String) (k : Nat) (names : List String) : Prop where
  plain : ∀ name ∈ names, IsPlain name
  leads : normalForm (join base (descent k names)) = normalForm path
  shortest : ∀ k' names', (∀ name ∈ names', IsPlain name) →
    normalForm (join base (descent k' names')) = normalForm path →
      k + names.length ≤ k' + names'.length

variable {path base p r : String} {k : Nat} {dirs names shared down above : List String}
  {l l' : List Step}

/-! ## What two lists share -/

/-- The first items of two lists differ, as far as there are any. -/
def Parted {α : Type} (l l' : List α) : Prop := ∀ a ∈ l.head?, a ∉ l'.head?

theorem exists_shared {α : Type} [DecidableEq α] (l l' : List α) :
    ∃ shared r r', l = shared ++ r ∧ l' = shared ++ r' ∧ Parted r r' := by
  induction l generalizing l' with
  | nil => exact ⟨[], [], l', rfl, rfl, fun a ha ↦ by cases ha⟩
  | cons a l ih =>
    by_cases same : l'.head? = some a
    · obtain ⟨rest, rfl⟩ := List.head?_eq_some_iff.mp same
      obtain ⟨shared, r, r', rfl, rfl, parted⟩ := ih rest
      exact ⟨a :: shared, r, r', rfl, rfl, parted⟩
    · refine ⟨[], a :: l, l', rfl, rfl, ?_⟩
      intro b first
      obtain rfl : a = b := Option.some.inj first
      exact same

theorem Parted.map_name (h : Parted down above) :
    Parted (down.map Step.name) (above.map Step.name) := by
  intro s first first'
  rw [List.head?_map] at first first'
  obtain ⟨a, ha, rfl⟩ := Option.map_eq_some_iff.mp first
  obtain ⟨b, hb, same⟩ := Option.map_eq_some_iff.mp first'
  obtain rfl := Step.name.inj same
  exact h b ha hb

theorem apart_of_parted (h : Parted l l') : apart l l' = (l, l') := by
  cases l with
  | nil => rw [apart]; simp
  | cons a l =>
    cases l' with
    | nil => rw [apart]; simp
    | cons b l' =>
      have differ : a ≠ b := by
        rintro rfl
        exact h a rfl rfl
      rw [apart, if_neg differ]

theorem apart_append (common l l' : List Step) :
    apart (common ++ l) (common ++ l') = apart l l' := by
  induction common with
  | nil => rfl
  | cons a common ih => rw [List.cons_append, List.cons_append, apart, if_pos rfl, ih]

/-- A path is seen from another through what follows after the steps that the two share. -/
theorem relative_eq (common : List Step) (hp : normalForm path = common ++ l)
    (hb : normalForm base = common ++ l') (parted : Parted l l') :
    relative path base = render (List.replicate l'.length .up ++ l) := by
  rw [normalForm] at hp hb
  rw [relative, route, hp, hb, apart_append, apart_of_parted parted]
  simp only [List.map_const']

/-- If the path only climbs and follows names after what is shared, then so does the route. -/
theorem relative_eq_descent (common : List Step)
    (hp : normalForm path = common ++ climbing k names) (hb : normalForm base = common ++ l')
    (parted : Parted (climbing k names) l') (plain : ∀ name ∈ names, IsPlain name) :
    relative path base = descent (l'.length + k) names := by
  rw [relative_eq common hp hb parted, ← climbing_add, render_climbing plain]

/-! ## Directories -/

theorem isPlain_of_mem_normalForm {name : String} (h : .name name ∈ normalForm p) :
    IsPlain name := by
  have step : Step.name name ∈ body p := by
    have step := mem_of_mem_normalize h
    by_cases absolute : IsAbsolute p
    · rw [steps_of_isAbsolute absolute] at step
      simpa using step
    · rcases steps_of_not_isAbsolute absolute with same | same
      · rwa [same] at step
      · rw [same] at step
        simpa using step
  cases isWritable_of_mem_body step with
  | name plain => exact plain

/-- A path from the root is a directory. -/
theorem exists_rooted (h : IsAbsolute p) :
    ∃ dirs, normalForm p = rooted dirs ∧ ∀ name ∈ dirs, IsPlain name := by
  refine ⟨_, normalForm_of_isAbsolute h, ?_⟩
  intro name hn
  apply isPlain_of_mem_normalForm (p := p)
  rw [normalForm_of_isAbsolute h]
  exact List.mem_cons_of_mem _ (List.mem_map_of_mem hn)

theorem normalForm_join (absolute : IsAbsolute base) (hb : normalForm base = rooted dirs)
    (free : ¬IsAbsolute r) : normalForm (join base r) = rooted ((body r).foldl walk dirs) := by
  rw [normalForm_of_isAbsolute absolute, rooted_inj] at hb
  rw [normalForm_of_isAbsolute ((isAbsolute_join free).mpr absolute), body_join free,
    List.foldl_append, hb]

theorem normalForm_join_descent (absolute : IsAbsolute base) (hb : normalForm base = rooted dirs)
    (plain : ∀ name ∈ names, IsPlain name) :
    normalForm (join base (descent k names)) =
      rooted (dirs.take (dirs.length - k) ++ names) := by
  obtain ⟨written, free⟩ := body_render (isWritable_of_mem_climbing (k := k) plain)
  rw [render_climbing plain] at written free
  rw [normalForm_join absolute hb free, written, foldl_walk_climbing]

/-! ## The shortest route -/

/-- Climbing out of what is not shared and descending is a way to get there. -/
theorem take_append_shared :
    (shared ++ above).take ((shared ++ above).length - above.length) ++ down =
      shared ++ down := by
  rw [List.length_append, Nat.add_sub_cancel, List.take_left']
  rfl

/-- A way that climbs so often and then follows names is no shorter. -/
theorem length_le_of_take_append (parted : Parted down above)
    (leads : (shared ++ above).take ((shared ++ above).length - k) ++ names = shared ++ down) :
    above.length + down.length ≤ k + names.length := by
  have lengths := congrArg List.length leads
  rw [List.length_append, List.length_take, List.length_append, List.length_append] at lengths
  by_cases shallow : shared.length + above.length - k ≤ shared.length
  · omega
  · -- What is left of the directory goes beyond what is shared, and the path does not.
    exfalso
    obtain ⟨j, deep⟩ : ∃ j, shared.length + above.length - k = shared.length + (j + 1) :=
      ⟨shared.length + above.length - k - shared.length - 1, by omega⟩
    rw [List.length_append, deep, List.take_length_add_append, List.append_assoc,
      List.append_cancel_left_eq] at leads
    cases above with
    | nil =>
      rw [List.length_nil] at deep
      omega
    | cons name above =>
      rw [List.take_succ_cons, List.cons_append] at leads
      exact parted name (by rw [← leads]; rfl) rfl

/-- The route to a path from the root is written, and none is shorter. -/
theorem exists_leadsShortest (hp : IsAbsolute path) (hb : IsAbsolute base) :
    ∃ k names, relative path base = descent k names ∧ LeadsShortest base path k names := by
  obtain ⟨dirs, form, plain⟩ := exists_rooted hp
  obtain ⟨dirs', form', -⟩ := exists_rooted hb
  obtain ⟨shared, down, above, rfl, rfl, parted⟩ := exists_shared dirs dirs'
  have plain' : ∀ name ∈ down, IsPlain name := fun name hn ↦
    plain name (List.mem_append_right _ hn)
  refine ⟨above.length, down, ?_, plain', ?_, ?_⟩
  · rw [← List.length_map Step.name]
    apply relative_eq_descent (rooted shared) (k := 0) _ _ parted.map_name plain'
    · rw [form, rooted, List.map_append]
      rfl
    · rw [form', rooted, List.map_append]
      rfl
  · rw [normalForm_join_descent hb form' plain', form, take_append_shared]
  · intro k names plainNames leads
    rw [normalForm_join_descent hb form' plainNames, form, rooted_inj] at leads
    exact length_le_of_take_append parted leads

/-- **Between two paths from the root the shortest route is written.** Joined to the one path it is
the other, and two paths have the same route from a third exactly if they are the same when they are
normalized. -/
theorem relative_leadsShortest (hp : IsAbsolute path) (hb : IsAbsolute base) :
    ∃ k names, relative path base = descent k names ∧ LeadsShortest base path k names ∧
      ∀ path', IsAbsolute path' →
        (relative path' base = relative path base ↔ normalForm path' = normalForm path) := by
  obtain ⟨k, names, written, shortest⟩ := exists_leadsShortest hp hb
  refine ⟨k, names, written, shortest, fun path' hp' ↦ ?_⟩
  constructor
  · intro same
    obtain ⟨k', names', written', shortest'⟩ := exists_leadsShortest hp' hb
    rw [← shortest'.leads, ← written', same, written, shortest.leads]
  · intro same
    rw [normalForm, normalForm] at same
    rw [relative, relative, route, route, same]

theorem relative_leadsShortest_sideways :
    IsAbsolute "/other//x.mojom" ∧ IsAbsolute "/../src/./a/" ∧
      ∃ k names, relative "/other//x.mojom" "/../src/./a/" = descent k names ∧
        LeadsShortest "/../src/./a/" "/other//x.mojom" k names ∧
        ∀ path', IsAbsolute path' →
          (relative path' "/../src/./a/" = relative "/other//x.mojom" "/../src/./a/" ↔
            normalForm path' = normalForm "/other//x.mojom") :=
  ⟨by decide, by decide, relative_leadsShortest (by decide) (by decide)⟩

end IdlLinker.Path
