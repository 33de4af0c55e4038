import IdlLinker.Path
import Mathlib.Data.List.Induction
import Mathlib.Tactic.Common

/-!
# Normal forms of paths

Steps in which nothing can be cancelled are of one of two forms. Those that begin at the root follow
names from there (`rooted`); the others climb a number of times and then follow names (`climbing`).
Normalizing gives one of these, and which of them depends on nothing but whether there is a root at
the beginning (`normalize_root_cons`, `exists_climbing`).

## Walking

What steps do is seen from a directory. From the directory that the names `dirs` lead to, a step up
goes to the directory above, if there is one, and a name leads on (`walk`). Cancelling steps does
not change where they lead from any directory, so steps with the normal form `climbing k names` lead
from `dirs` to `names` in the directory `k` above: a fact that is kept together with the form itself
and needs no second induction.
-/

namespace IdlLinker.Path

/-- Steps that follow names from the root. -/
def rooted (names : List String) : List Step := .root :: names.map .name

/-- Steps that climb so often and then follow names. -/
def climbing (k : Nat) (names : List String) : List Step :=
  List.replicate k .up ++ names.map .name

/-- Where a step leads from a directory; directories are given by the names that lead there from the
root. -/
def walk (dirs : List String) : Step → List String
  | .root => []
  | .here => dirs
  | .up => dirs.dropLast
  | .name s => dirs ++ [s]

variable {dirs names names' : List String} {k k' : Nat} {l l' : List Step} {s : Step}

/-! ## The two forms -/

theorem rooted_inj : rooted names = rooted names' ↔ names = names' := by
  rw [rooted, rooted, List.cons.injEq, and_iff_right rfl]
  exact List.map_inj_right fun _ _ ↦ Step.name.inj

theorem climbing_add (i k : Nat) (names : List String) :
    climbing (i + k) names = List.replicate i .up ++ climbing k names := by
  rw [climbing, ← List.replicate_append_replicate, List.append_assoc, climbing]

theorem climbing_append (k : Nat) (names names' : List String) :
    climbing k (names ++ names') = climbing k names ++ names'.map .name := by
  rw [climbing, List.map_append, ← List.append_assoc, climbing]

theorem count_up_climbing (k : Nat) (names : List String) :
    (climbing k names).count .up = k := by
  rw [climbing, List.count_append, List.count_replicate_self, List.count_eq_zero_of_not_mem,
    Nat.add_zero]
  simp

theorem climbing_inj (h : climbing k names = climbing k' names') : k = k' ∧ names = names' := by
  have same : k = k' := by
    rw [← count_up_climbing k names, h, count_up_climbing]
  subst same
  have rest := List.append_cancel_left h
  exact ⟨rfl, (List.map_inj_right fun _ _ ↦ Step.name.inj).mp rest⟩

theorem root_notMem_climbing : Step.root ∉ climbing k names := by
  simp [climbing]

/-! ## Normalizing step by step -/

theorem normalize_append_singleton :
    normalize (l ++ [s]) = (take (normalize l).reverse s).reverse := by
  rw [normalize, List.foldl_append, normalize, List.reverse_reverse]
  rfl

theorem take_name (back : List Step) (n : String) : take back (.name n) = .name n :: back := rfl

theorem take_reverse_rooted (s : Step) (h : s ≠ .root) :
    (take (rooted dirs).reverse s).reverse = rooted (walk dirs s) := by
  cases s with
  | root => exact absurd rfl h
  | here => rw [take, List.reverse_reverse, walk]
  | up =>
    rcases List.eq_nil_or_concat dirs with rfl | ⟨dirs, last, rfl⟩
    · rfl
    · simp [rooted, take, walk]
  | name n => simp [rooted, take, walk]

theorem take_replicate_up (k : Nat) :
    take (List.replicate k .up) .up = List.replicate (k + 1) .up := by
  cases k with
  | zero => rfl
  | succ k => rfl

/-- Steps that follow what leads to a directory lead on from there. -/
theorem normalize_append_of_rooted (form : normalize l = rooted dirs) (h : Step.root ∉ l') :
    normalize (l ++ l') = rooted (l'.foldl walk dirs) := by
  induction l' using List.reverseRecOn with
  | nil => rw [List.append_nil, form, List.foldl_nil]
  | append_singleton l' s ih =>
    rw [List.mem_append, not_or, List.mem_singleton] at h
    rw [← List.append_assoc, normalize_append_singleton, ih h.1,
      take_reverse_rooted s (Ne.symm h.2), List.foldl_append]
    rfl

theorem normalize_root_cons (h : Step.root ∉ l) :
    normalize (.root :: l) = rooted (l.foldl walk []) :=
  normalize_append_of_rooted (l := [.root]) rfl h

/-- Steps without a root climb and then follow names, and that is where they lead from any
directory. -/
theorem exists_climbing (h : Step.root ∉ l) :
    ∃ k names, normalize l = climbing k names ∧
      ∀ dirs, l.foldl walk dirs = dirs.take (dirs.length - k) ++ names := by
  induction l using List.reverseRecOn with
  | nil => exact ⟨0, [], rfl, fun dirs ↦ by simp⟩
  | append_singleton l s ih =>
    rw [List.mem_append, not_or, List.mem_singleton] at h
    obtain ⟨k, names, form, leads⟩ := ih h.1
    have last (dirs : List String) : (l ++ [s]).foldl walk dirs =
        walk (dirs.take (dirs.length - k) ++ names) s := by
      rw [List.foldl_append, leads]
      rfl
    simp only [normalize_append_singleton, form, last]
    cases s with
    | root => exact absurd rfl h.2
    | here => exact ⟨k, names, by rw [take, List.reverse_reverse], fun dirs ↦ rfl⟩
    | name n =>
      refine ⟨k, names ++ [n], ?_, fun dirs ↦ ?_⟩
      · simp [climbing, take]
      · rw [walk, List.append_assoc]
    | up =>
      rcases List.eq_nil_or_concat names with rfl | ⟨names, name, rfl⟩
      · -- Nothing is left to cancel: the step joins those that climb.
        refine ⟨k + 1, [], ?_, fun dirs ↦ ?_⟩
        · rw [climbing, climbing, List.map_nil, List.append_nil, List.append_nil,
            List.reverse_replicate, take_replicate_up, List.reverse_replicate]
        · simp only [walk, List.append_nil, List.dropLast_eq_take, List.take_take,
            List.length_take]
          congr 1
          omega
      · refine ⟨k, names, ?_, fun dirs ↦ ?_⟩
        · simp [climbing, take]
        · simp [walk, ← List.append_assoc]

/-- Where steps lead can be read off their normal form. -/
theorem foldl_walk_of_normalize (h : Step.root ∉ l) (form : normalize l = climbing k names)
    (dirs : List String) : l.foldl walk dirs = dirs.take (dirs.length - k) ++ names := by
  obtain ⟨k', names', form', leads⟩ := exists_climbing h
  obtain ⟨rfl, rfl⟩ := climbing_inj (form.symm.trans form')
  exact leads dirs

theorem normalize_climbing : normalize (climbing k names) = climbing k names := by
  induction names using List.reverseRecOn with
  | nil =>
    rw [climbing, List.map_nil, List.append_nil]
    induction k with
    | zero => rfl
    | succ k ih =>
      rw [List.replicate_succ', normalize_append_singleton, ih, List.reverse_replicate,
        take_replicate_up, List.reverse_replicate, List.replicate_succ']
  | append_singleton names n ih =>
    rw [climbing, List.map_append, List.map_singleton, ← List.append_assoc, ← climbing,
      normalize_append_singleton, ih, take_name, List.reverse_cons, List.reverse_reverse]

theorem foldl_walk_climbing (k : Nat) (names dirs : List String) :
    (climbing k names).foldl walk dirs = dirs.take (dirs.length - k) ++ names :=
  foldl_walk_of_normalize root_notMem_climbing normalize_climbing dirs

theorem mem_of_mem_take {back : List Step} {t : Step} (h : s ∈ take back t) : s ∈ back ∨ s = t := by
  cases t with
  | here => exact Or.inl h
  | root => exact (List.mem_cons.mp h).symm
  | name n => exact (List.mem_cons.mp h).symm
  | up =>
    cases back with
    | nil => exact (List.mem_cons.mp h).symm
    | cons last back =>
      cases last with
      | name n => exact Or.inl (List.mem_cons_of_mem _ h)
      | root => exact Or.inl h
      | here => exact (List.mem_cons.mp h).symm
      | up => exact (List.mem_cons.mp h).symm

theorem mem_of_mem_normalize (h : s ∈ normalize l) : s ∈ l := by
  induction l using List.reverseRecOn with
  | nil => exact absurd h List.not_mem_nil
  | append_singleton l t ih =>
    rw [normalize_append_singleton, List.mem_reverse] at h
    rcases mem_of_mem_take h with old | rfl
    · exact List.mem_append_left _ (ih (List.mem_reverse.mp old))
    · exact List.mem_append_right _ List.mem_cons_self

end IdlLinker.Path
