import IdlLinker.Proofs.Path.Route

/-!
# Paths from a working directory

A relative path has a location only from a working directory, and `Path.relative` is not told which
one that is. It compares normal forms, and climbs out of whatever is left of the base, step for
step: also out of the root of an absolute base, which has nothing above it, and out of the steps up
at the beginning of a relative one, which another step up does not undo. Where it does, the text
leads astray, unless the path leads up to the root anyway and only its names matter (`locates_iff`).

A relative path leads up from the working directory as often as its normal form says, and then along
names. The proofs compare how much of the working directory is left on the two ways, through the
base and by the path alone.
-/

namespace IdlLinker.Path

/-- How often a path leads up before it follows names. -/
def climbs (p : String) : Nat := (normalForm p).count .up

/-- How many directories an absolute path leads down from the root. -/
def depth (p : String) : Nat := (normalForm p).tail.length

/-- From the directory of the base, the path as seen from the base leads to where the path leads. -/
def Locates (cwd path base : String) : Prop :=
  normalForm (join (join cwd base) (relative path base)) = normalForm (join cwd path)

instance (cwd path base : String) : Decidable (Locates cwd path base) :=
  inferInstanceAs (Decidable (_ = _))

variable {path base cwd p : String} {i j k : Nat} {dirs names names' : List String} {l : List Step}

/-! ## Directories above -/

/-- Climbing out of all names, and then further, ends above the directory that they begin in. -/
theorem take_append_names :
    (dirs ++ names).take ((dirs ++ names).length - (names.length + k)) =
      dirs.take (dirs.length - k) := by
  have left : (dirs ++ names).length - (names.length + k) = dirs.length - k := by
    rw [List.length_append]
    omega
  rw [left, List.take_append_of_le_length (Nat.sub_le _ _)]

theorem take_take_sub :
    (dirs.take (dirs.length - i)).take ((dirs.take (dirs.length - i)).length - k) =
      dirs.take (dirs.length - (i + k)) := by
  rw [List.take_take, List.length_take]
  congr 1
  omega

/-- Climbing further leads to the same names only from the root. -/
theorem take_sub_append_eq_iff (further : i < k) :
    dirs.take (dirs.length - k) ++ names = dirs.take (dirs.length - i) ++ names ↔
      dirs.length ≤ i := by
  rw [List.append_left_inj]
  constructor
  · intro same
    have lengths := congrArg List.length same
    rw [List.length_take, List.length_take] at lengths
    omega
  · intro top
    congr 1
    omega

/-! ## Where normal forms part -/

theorem Parted.symm {α : Type} {l l' : List α} (h : Parted l l') : Parted l' l :=
  fun a first first' ↦ h a first' first

theorem parted_rooted (h : Step.root ∉ l) : Parted l (rooted names) := by
  intro s first root
  obtain rfl := Option.some.inj root
  exact h (List.mem_of_mem_head? first)

theorem parted_climbing_succ : Parted (climbing (k + 1) names) (names'.map .name) := by
  intro s up first
  obtain rfl := Option.some.inj up
  simpa using List.mem_of_mem_head? first

/-! ## Relative paths -/

theorem exists_climbing_normalForm (h : ¬IsAbsolute p) :
    ∃ k names, normalForm p = climbing k names ∧ ∀ name ∈ names, IsPlain name := by
  obtain ⟨k, names, form, -⟩ := exists_climbing (root_notMem_body (p := p))
  rw [← normalForm_of_not_isAbsolute h] at form
  refine ⟨k, names, form, ?_⟩
  intro name hn
  apply isPlain_of_mem_normalForm (p := p)
  rw [form]
  exact List.mem_append_right _ (List.mem_map_of_mem hn)

theorem climbs_eq (h : normalForm p = climbing k names) : climbs p = k := by
  rw [climbs, h, count_up_climbing]

theorem depth_eq (h : normalForm p = rooted dirs) : depth p = dirs.length := by
  rw [depth, h, rooted, List.tail_cons, List.length_map]

/-- Where a relative path leads from a directory can be read off its normal form. -/
theorem normalForm_join_of_climbing (absolute : IsAbsolute cwd) (hc : normalForm cwd = rooted dirs)
    (free : ¬IsAbsolute p) (form : normalForm p = climbing k names) :
    normalForm (join cwd p) = rooted (dirs.take (dirs.length - k) ++ names) := by
  rw [normalForm_of_not_isAbsolute free] at form
  rw [normalForm_join absolute hc free, foldl_walk_of_normalize root_notMem_body form]

theorem isAbsolute_join_left (absolute : IsAbsolute cwd) : IsAbsolute (join cwd p) := by
  by_cases h : IsAbsolute p
  · rwa [join_of_isAbsolute h]
  · rwa [isAbsolute_join h]

/-! ## Locations -/

/-- An absolute path is written as a route from an absolute base, and whole from a relative one. -/
theorem locates_of_isAbsolute (hp : IsAbsolute path) : Locates cwd path base := by
  rw [Locates, join_of_isAbsolute hp]
  by_cases hb : IsAbsolute base
  · obtain ⟨k, names, written, shortest⟩ := exists_leadsShortest hp hb
    rw [join_of_isAbsolute hb, written, shortest.leads]
  · obtain ⟨dirs, form, plain⟩ := exists_rooted hp
    obtain ⟨j, names, form', -⟩ := exists_climbing_normalForm hb
    have written : relative path base =
        render (List.replicate (climbing j names).length .up ++ .root :: climbing 0 dirs) :=
      relative_eq [] form form' (parted_rooted root_notMem_climbing).symm
    obtain ⟨same, absolute⟩ := body_render_append_root
      (isWritable_of_mem_climbing (k := 0) plain) (List.replicate (climbing j names).length .up)
    rw [← written] at same absolute
    rw [join_of_isAbsolute absolute, normalForm_of_isAbsolute absolute, same, foldl_walk_climbing,
      List.take_nil, List.nil_append, form]

/-- Two relative paths share the steps up of the base if the path has as many. -/
theorem locates_of_climbs_le (hc : IsAbsolute cwd) (hp : ¬IsAbsolute path) (hb : ¬IsAbsolute base)
    (le : climbs base ≤ climbs path) : Locates cwd path base := by
  obtain ⟨dirs, formc, -⟩ := exists_rooted hc
  obtain ⟨i, names, form, plain⟩ := exists_climbing_normalForm hp
  obtain ⟨j, names', form', -⟩ := exists_climbing_normalForm hb
  rw [climbs_eq form, climbs_eq form'] at le
  obtain ⟨k, rfl⟩ := Nat.exists_eq_add_of_le le
  rw [Locates, normalForm_join_of_climbing hc formc hp form]
  have above := normalForm_join_of_climbing hc formc hb form'
  have absolute : IsAbsolute (join cwd base) := isAbsolute_join_left hc
  cases k with
  | zero =>
    obtain ⟨shared, down, up, rfl, rfl, parted⟩ := exists_shared names names'
    have plain' : ∀ name ∈ down, IsPlain name := fun name hn ↦
      plain name (List.mem_append_right _ hn)
    -- Both climb equally often, so that only the names can differ.
    rw [climbing_append] at form form'
    rw [relative_eq_descent (climbing j shared) (k := 0) form form' parted.map_name plain',
      normalForm_join_descent absolute above plain', List.length_map, ← List.append_assoc,
      take_append_names, Nat.sub_zero, List.take_length, List.append_assoc, Nat.add_zero]
  | succ k =>
    -- The path climbs on from where the names of the base begin.
    rw [climbing_add] at form
    rw [relative_eq_descent _ form form' parted_climbing_succ plain,
      normalForm_join_descent absolute above plain, List.length_map, take_append_names,
      take_take_sub]

/-- Steps up that only a relative base has are climbed out of. -/
theorem locates_iff_of_climbs_lt (hc : IsAbsolute cwd) (hp : ¬IsAbsolute path)
    (hb : ¬IsAbsolute base) (lt : climbs path < climbs base) :
    Locates cwd path base ↔ depth cwd ≤ climbs path := by
  obtain ⟨dirs, formc, -⟩ := exists_rooted hc
  obtain ⟨i, names, form, plain⟩ := exists_climbing_normalForm hp
  obtain ⟨j, names', form', -⟩ := exists_climbing_normalForm hb
  rw [climbs_eq form, climbs_eq form'] at lt
  obtain ⟨k, rfl⟩ := Nat.exists_eq_add_of_lt lt
  have above := normalForm_join_of_climbing hc formc hb form'
  rw [Locates, normalForm_join_of_climbing hc formc hp form, climbs_eq form, depth_eq formc]
  rw [← Nat.add_zero i, climbing_add] at form
  rw [Nat.add_assoc, climbing_add] at form'
  have left : (climbing (k + 1) names').length + 0 = names'.length + (k + 1) := by
    rw [climbing, List.length_append, List.length_replicate, List.length_map]
    omega
  -- On the way through the base the steps up of its own are taken twice.
  rw [relative_eq_descent _ (k := 0) form form' parted_climbing_succ.symm plain, left,
    normalForm_join_descent (isAbsolute_join_left hc) above plain, take_append_names, take_take_sub,
    rooted_inj, take_sub_append_eq_iff (by omega)]

/-- The root of the base is climbed out of, and the names of a relative path are looked for
there. -/
theorem locates_iff_of_isAbsolute_base (hc : IsAbsolute cwd) (hp : ¬IsAbsolute path)
    (hb : IsAbsolute base) : Locates cwd path base ↔ depth cwd ≤ climbs path := by
  obtain ⟨dirs, formc, -⟩ := exists_rooted hc
  obtain ⟨i, names, form, plain⟩ := exists_climbing_normalForm hp
  obtain ⟨dirs', form', -⟩ := exists_rooted hb
  have unshared : normalForm base = [] ++ rooted dirs' := form'
  rw [Locates, normalForm_join_of_climbing hc formc hp form, climbs_eq form, depth_eq formc,
    relative_eq_descent [] form unshared (parted_rooted root_notMem_climbing) plain,
    join_of_isAbsolute hb, normalForm_join_descent hb form' plain]
  have top : dirs'.length - ((rooted dirs').length + i) = 0 := by
    rw [rooted, List.length_cons, List.length_map]
    omega
  rw [top, List.take_zero, rooted_inj, List.append_left_inj, eq_comm, List.take_eq_nil_iff,
    Nat.sub_eq_zero_iff_le]
  apply or_iff_left_of_imp
  rintro rfl
  exact Nat.zero_le _

/-- **The path as seen from a base leads to the path** unless the base is climbed out of further
than it goes down: the path is absolute, or both are relative and the base leads up no more often
than the path, or the path leads up to the root and it does not matter. -/
theorem locates_iff (hc : IsAbsolute cwd) :
    Locates cwd path base ↔
      IsAbsolute path ∨ (¬IsAbsolute base ∧ climbs base ≤ climbs path) ∨
        depth cwd ≤ climbs path := by
  by_cases hp : IsAbsolute path
  · exact iff_of_true (locates_of_isAbsolute hp) (Or.inl hp)
  · rw [or_iff_right hp]
    by_cases hb : IsAbsolute base
    · rw [locates_iff_of_isAbsolute_base hc hp hb, or_iff_right (fun h ↦ h.1 hb)]
    · rw [and_iff_right hb]
      by_cases le : climbs base ≤ climbs path
      · exact iff_of_true (locates_of_climbs_le hc hp hb le) (Or.inl le)
      · rw [or_iff_right le, locates_iff_of_climbs_lt hc hp hb (Nat.lt_of_not_le le)]

theorem locates_iff_src :
    IsAbsolute "/work" ∧ (Locates "/work" "a.mojom" "src" ↔
      IsAbsolute "a.mojom" ∨ (¬IsAbsolute "src" ∧ climbs "src" ≤ climbs "a.mojom") ∨
        depth "/work" ≤ climbs "a.mojom") :=
  ⟨by decide, locates_iff (by decide)⟩

/-- A relative path as seen from an absolute base is looked for at the root, wherever it is. -/
theorem not_locates_root_of_base :
    IsAbsolute "/work" ∧ ¬IsAbsolute "a.mojom" ∧ relative "a.mojom" "/src" = "../../a.mojom" ∧
      normalForm (join "/src" "../../a.mojom") = normalForm "/a.mojom" ∧
      normalForm (join "/work" "a.mojom") = normalForm "/work/a.mojom" ∧
      ¬Locates "/work" "a.mojom" "/src" := by
  decide

end IdlLinker.Path
