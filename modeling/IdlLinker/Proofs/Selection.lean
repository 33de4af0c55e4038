import IdlLinker.Proofs.Table
import IdlLinker.Session

/-!
# Linking many files

A selection is a list of files as the user gave them: files may be repeated, and may not be in the
graph at all. Linking it reports one outcome for each file in it, in the order in which the files
first occur, and each outcome is the one that the file would have if nothing else were selected.
So a file that fails hides no other, and neither does it matter whether files are linked side by
side.

The modules of a selection are all or nothing. Whether there are any is read off the same report,
and so is the error: of the files that fail it is the first in the report.

## Repetitions

Outcomes are stored one after the other, and a file that is selected twice is stored twice. The
second time it has the same outcome as the first, so nothing is lost by the storing
(`Table.ofList_map`).
-/

namespace IdlLinker

/-! ## First occurrences -/

theorem pairwise_eraseDups {κ : Type} [DecidableEq κ] (ks : List κ) :
    ks.eraseDups.Pairwise fun k k' ↦ ks.idxOf k < ks.idxOf k' := by
  induction ks using List.reverseRecOn with
  | nil => exact .nil
  | append_singleton ks k ih =>
    have kept : ks.eraseDups.Pairwise fun a b ↦ (ks ++ [k]).idxOf a < (ks ++ [k]).idxOf b := by
      refine ih.imp_of_mem fun {a b} ha hb less ↦ ?_
      rwa [List.idxOf_append_of_mem (List.mem_eraseDups.mp ha),
        List.idxOf_append_of_mem (List.mem_eraseDups.mp hb)]
    rw [eraseDups_append_singleton]
    split
    · exact kept
    · rename_i new
      refine List.pairwise_append.mpr ⟨kept, List.pairwise_singleton _ k, fun a ha b hb ↦ ?_⟩
      have ha := List.mem_eraseDups.mp ha
      obtain rfl := List.mem_singleton.mp hb
      rw [List.idxOf_append_of_mem ha, List.idxOf_append_of_notMem new]
      exact Nat.lt_of_lt_of_le (List.idxOf_lt_length_of_mem ha) (Nat.le_add_right _ _)

namespace Table

variable {κ α : Type} [DecidableEq κ]

theorem store_map (f : κ → α) (k : κ) (ks : List κ) :
    store k (f k) (ks.map fun k ↦ (k, f k)) =
      (if k ∈ ks then ks else ks ++ [k]).map fun k ↦ (k, f k) := by
  induction ks with
  | nil => simp [store]
  | cons k' ks ih =>
    rw [List.map_cons, store]
    split
    · rename_i same
      subst same
      simp
    · rename_i other
      rw [ih]
      by_cases old : k ∈ ks <;> simp [old, Ne.symm other]

/-- Storing what a function gives for each key comes to storing it once for each. -/
theorem ofList_map (f : κ → α) (ks : List κ) :
    ofList (ks.map fun k ↦ (k, f k)) = ⟨ks.eraseDups.map fun k ↦ (k, f k)⟩ := by
  induction ks using List.reverseRecOn with
  | nil => rfl
  | append_singleton ks k ih =>
    rw [List.map_append, List.map_singleton, ofList_append, ih, insert, store_map,
      eraseDups_append_singleton]
    simp only [List.mem_eraseDups]

end Table

/-! ## All or the first error -/

section Traversal

variable {ε α β : Type} {f : α → Except ε β} {x : α} {xs : List α} {e : ε}

theorem mapM_cons_of_error (h : f x = .error e) : (x :: xs).mapM f = .error e := by
  rw [List.mapM_cons, h]
  rfl

theorem mapM_cons_of_ok {y : β} (h : f x = .ok y) :
    (x :: xs).mapM f = (xs.mapM f).map (y :: ·) := by
  rw [List.mapM_cons, h]
  cases xs.mapM f <;> rfl

theorem mapM_eq_ok_iff {ys : List β} :
    xs.mapM f = .ok ys ↔ List.Forall₂ (fun x y ↦ f x = .ok y) xs ys := by
  induction xs generalizing ys with
  | nil =>
    rw [List.forall₂_nil_left_iff, eq_comm]
    exact ⟨Except.ok.inj, congrArg _⟩
  | cons x xs ih =>
    rw [List.forall₂_cons_left_iff]
    cases hx : f x with
    | error e =>
      rw [mapM_cons_of_error hx]
      simp
    | ok y =>
      rw [mapM_cons_of_ok hx]
      cases hxs : xs.mapM f with
      | error e =>
        have noResults (zs : List β) : ¬List.Forall₂ (fun x y ↦ f x = .ok y) xs zs := fun all ↦ by
          rw [ih.mpr all] at hxs
          cases hxs
        simp [Except.map, noResults]
      | ok zs =>
        have only (zs' : List β) : List.Forall₂ (fun x y ↦ f x = .ok y) xs zs' ↔ zs = zs' := by
          rw [← ih, hxs, Except.ok.injEq]
        simp [Except.map, only, eq_comm]

theorem mapM_eq_error_iff :
    xs.mapM f = .error e ↔ ∃ front x back, xs = front ++ x :: back ∧ f x = .error e ∧
      ∀ x ∈ front, ∃ y, f x = .ok y := by
  induction xs with
  | nil =>
    constructor
    · intro h
      cases h
    · rintro ⟨front, x, back, split, -⟩
      simp at split
  | cons x xs ih =>
    cases hx : f x with
    | error e' =>
      rw [mapM_cons_of_error hx]
      constructor
      · rintro ⟨⟩
        exact ⟨[], x, xs, rfl, hx, by simp⟩
      · rintro ⟨front, x', back, split, failed, before⟩
        cases front with
        | nil =>
          obtain ⟨rfl, rfl⟩ := List.cons.inj split
          rw [hx] at failed
          cases failed
          rfl
        | cons first front =>
          obtain ⟨rfl, -⟩ := List.cons.inj split
          obtain ⟨y, succeeded⟩ := before x List.mem_cons_self
          cases hx.symm.trans succeeded
    | ok y =>
      have later : (x :: xs).mapM f = .error e ↔ xs.mapM f = .error e := by
        rw [mapM_cons_of_ok hx]
        cases xs.mapM f <;> simp [Except.map]
      rw [later, ih]
      constructor
      · rintro ⟨front, x', back, rfl, failed, before⟩
        exact ⟨x :: front, x', back, rfl, failed, List.forall_mem_cons.mpr ⟨⟨y, hx⟩, before⟩⟩
      · rintro ⟨front, x', back, split, failed, before⟩
        cases front with
        | nil =>
          obtain ⟨rfl, rfl⟩ := List.cons.inj split
          cases hx.symm.trans failed
        | cons first front =>
          obtain ⟨rfl, rfl⟩ := List.cons.inj split
          exact ⟨front, x', back, rfl, failed, (List.forall_mem_cons.mp before).2⟩

end Traversal

/-! ## Selections -/

/-- A module with its paths as the options want them. -/
def LinkOptions.place (options : LinkOptions) (m : Module) : Module :=
  match options.root? with
  | none => m
  | some root => m.relocate root

/-- **What is reported of a selection**, and what becomes of its modules. -/
structure ReportsSelection (g : Graph) (options : LinkOptions) : Prop where
  /-- What is selected: the files that were given, or all files of the graph when none were. -/
  selected : options.selected g = if options.files = [] then g.files.keys else options.files
  /-- Nothing is reported but what is selected, and nothing that is selected is left out. -/
  mem_iff : ∀ file, file ∈ (g.linkEach options).outcomes.keys ↔ file ∈ options.selected g
  /-- Each file is reported once. -/
  once : (g.linkEach options).outcomes.keys.Nodup
  /-- Files are reported in the order of their first places. -/
  inOrder : (g.linkEach options).outcomes.keys.Pairwise fun file file' ↦
    (options.selected g).idxOf file < (options.selected g).idxOf file'
  /-- The outcome of each file is what linking the file comes to, and it would be the same if the
  file were selected alone. -/
  alone : ∀ file ∈ options.selected g, ∃ outcome,
    (g.linkEach options).outcomes.find? file = some outcome ∧
      outcome = (g.module file).map options.place ∧
      ∀ parallel, (g.linkEach { options with parallel, files := [file] }).outcomes.entries =
        [(file, outcome)]
  /-- There are modules exactly if no file failed. -/
  succeeds_iff : (∃ modules, g.linkAll options = .ok modules) ↔
    ∀ e ∈ (g.linkEach options).outcomes.entries, ∃ m, e.2 = .ok m
  /-- The modules are those in the report, under the same files and in the same order. -/
  modules_iff : ∀ modules, g.linkAll options = .ok modules ↔
    (g.linkEach options).outcomes.entries = modules.entries.map fun e ↦ (e.1, .ok e.2)
  /-- The error is that of the first file in the report that failed. -/
  error_iff : ∀ e, g.linkAll options = .error e ↔ ∃ front file back,
    (g.linkEach options).outcomes.entries = front ++ (file, .error e) :: back ∧
      ∀ x ∈ front, ∃ m, x.2 = .ok m

namespace Graph

variable (g : Graph) (options : LinkOptions)

theorem result_linkSelected (file : FileId) :
    (g.linkSelected options file).result = (g.module file).map options.place := by
  rw [linkSelected]
  cases options with
  | mk root? parallel files =>
    cases root? with
    | none => exact (congrFun Except.map_id _).symm
    | some root => rfl

/-- The outcomes of a selection: one for each file, at its first place, and as the file has it by
itself. -/
theorem outcomes_linkEach :
    (g.linkEach options).outcomes =
      ⟨(options.selected g).eraseDups.map fun file ↦
        (file, (g.module file).map options.place)⟩ := by
  rw [linkEach, ← Table.ofList_map, List.map_map]
  simp only [Function.comp_def, result_linkSelected]

theorem keys_outcomes : (g.linkEach options).outcomes.keys = (options.selected g).eraseDups := by
  rw [outcomes_linkEach, Table.keys, List.map_map]
  exact List.map_id _

theorem nodup_keys_outcomes : (g.linkEach options).outcomes.keys.Nodup :=
  Table.nodup_keys_ofList _

/-- The outcome of a file says nothing of what else is selected. -/
theorem find?_outcomes {file : FileId} (selected : file ∈ options.selected g) :
    (g.linkEach options).outcomes.find? file = some ((g.module file).map options.place) := by
  rw [Table.find?_eq_some_iff (g.nodup_keys_outcomes options), outcomes_linkEach]
  exact List.mem_map_of_mem (List.mem_eraseDups.mpr selected)

/-- A module in a report is the module of its file, placed. -/
theorem exists_module_of_find?_outcomes {file : FileId} {m : Module}
    (found : (g.linkEach options).outcomes.find? file = some (.ok m)) :
    ∃ m', g.module file = .ok m' ∧ m = options.place m' := by
  have selected : file ∈ options.selected g := by
    rw [← List.mem_eraseDups, ← keys_outcomes]
    exact Table.mem_keys_of_find? found
  have same := Option.some.inj ((g.find?_outcomes options selected).symm.trans found)
  cases linked : g.module file with
  | error e =>
    rw [linked] at same
    cases same
  | ok m' =>
    rw [linked] at same
    exact ⟨m', rfl, (Except.ok.inj same).symm⟩

variable {g options}

theorem entries_outcomes_of_single {file : FileId} (single : options.files = [file]) :
    (g.linkEach options).outcomes.entries = [(file, (g.module file).map options.place)] := by
  rw [outcomes_linkEach, LinkOptions.selected, single]
  simp [List.eraseDups_cons]

/-- An outcome under the name of its file. -/
def named (e : FileId × Except LinkError Module) : Except LinkError (FileId × Module) :=
  e.2.map (e.1, ·)

theorem linkAll_eq :
    g.linkAll options = ((g.linkEach options).outcomes.entries.mapM named).map Table.mk := by
  have same : named = fun e ↦ do return (e.1, ← e.2) := by
    funext ⟨file, outcome⟩
    cases outcome <;> rfl
  rw [linkAll, same]
  cases List.mapM (m := Except LinkError) _ (g.linkEach options).outcomes.entries <;> rfl

theorem named_eq_ok_iff {e : FileId × Except LinkError Module} {e' : FileId × Module} :
    named e = .ok e' ↔ e = (e'.1, .ok e'.2) := by
  obtain ⟨file, outcome⟩ := e
  obtain ⟨file', m⟩ := e'
  cases outcome <;> simp [named, Except.map]

theorem named_eq_error_iff {x : FileId × Except LinkError Module} {e : LinkError} :
    named x = .error e ↔ x.2 = .error e := by
  obtain ⟨file, outcome⟩ := x
  cases outcome <;> simp [named, Except.map]

theorem linkAll_eq_ok_iff {modules : Table FileId Module} :
    g.linkAll options = .ok modules ↔
      (g.linkEach options).outcomes.entries = modules.entries.map fun e ↦ (e.1, .ok e.2) := by
  have entries : g.linkAll options = .ok modules ↔
      (g.linkEach options).outcomes.entries.mapM named = .ok modules.entries := by
    rw [linkAll_eq]
    cases (g.linkEach options).outcomes.entries.mapM named <;> cases modules <;> simp [Except.map]
  rw [entries, mapM_eq_ok_iff]
  simp only [named_eq_ok_iff]
  rw [← List.forall₂_map_right_iff, List.forall₂_eq_eq_eq]

theorem linkAll_eq_error_iff {e : LinkError} :
    g.linkAll options = .error e ↔ ∃ front file back,
      (g.linkEach options).outcomes.entries = front ++ (file, .error e) :: back ∧
        ∀ x ∈ front, ∃ m, x.2 = .ok m := by
  have traversal : g.linkAll options = .error e ↔
      (g.linkEach options).outcomes.entries.mapM named = .error e := by
    rw [linkAll_eq]
    cases (g.linkEach options).outcomes.entries.mapM named <;> simp [Except.map]
  have succeeded (x : FileId × Except LinkError Module) :
      (∃ e', named x = .ok e') ↔ ∃ m, x.2 = .ok m := by
    obtain ⟨file, outcome⟩ := x
    cases outcome <;> simp [named, Except.map]
  rw [traversal, mapM_eq_error_iff]
  simp only [named_eq_error_iff, succeeded, Prod.exists]
  constructor
  · rintro ⟨front, file, outcome, back, split, rfl, before⟩
    exact ⟨front, file, back, split, before⟩
  · rintro ⟨front, file, back, split, before⟩
    exact ⟨front, file, _, back, split, rfl, before⟩

end Graph

/-- **Linking a selection is linking each of its files**, in the order of the selection; the modules
of a selection are all or nothing, and then the first error. -/
theorem reportsSelection (g : Graph) (options : LinkOptions) : ReportsSelection g options where
  selected := by
    rw [LinkOptions.selected]
    cases options.files <;> rfl
  mem_iff file := by rw [Graph.keys_outcomes, List.mem_eraseDups]
  once := g.nodup_keys_outcomes options
  inOrder := by
    rw [Graph.keys_outcomes]
    exact pairwise_eraseDups _
  alone file selected :=
    ⟨_, g.find?_outcomes options selected, rfl, fun _ ↦ Graph.entries_outcomes_of_single rfl⟩
  succeeds_iff := by
    constructor
    · rintro ⟨modules, linked⟩ e he
      rw [Graph.linkAll_eq_ok_iff.mp linked] at he
      obtain ⟨e', -, rfl⟩ := List.mem_map.mp he
      exact ⟨e'.2, rfl⟩
    · intro all
      cases linked : g.linkAll options with
      | ok modules => exact ⟨modules, rfl⟩
      | error e =>
        obtain ⟨front, file, back, split, -⟩ := Graph.linkAll_eq_error_iff.mp linked
        obtain ⟨m, succeeded⟩ := all (file, .error e) (by simp [split])
        cases succeeded
  modules_iff _ := Graph.linkAll_eq_ok_iff
  error_iff _ := Graph.linkAll_eq_error_iff

end IdlLinker
