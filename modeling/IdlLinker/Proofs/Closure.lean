import IdlLinker.Link.Imports
import Mathlib.Data.List.Nodup
import Mathlib.Logic.Relation

/-!
# What the import closure holds

`Link.closure` works through a queue of names. Here the queue disappears: the closure of a file
holds a name exactly when a chain of one or more imports leads there from the file, it holds no name
twice, and it exists exactly when all these names are in the graph.

## The invariant of the queue

A name in the queue may be found already, may be found later, or may be missing from the graph. What
carries the induction is therefore stated of the outcome, not of the queue: whatever was waiting is
found in the end, whatever was found on the way has all its imports found as well, and nothing is
found that no waiting name leads to. `Spread` puts these together.
-/

open Relation

namespace IdlLinker

open IdlLinker.Graph

namespace Graph

/-- A file of the graph imports another, which need not be there. -/
def Imports (g : Graph) (a b : FileId) : Prop :=
  ∃ file, g.files.find? a = some file ∧ b ∈ file.imports

/-- A chain of one or more imports leads from a file to another. -/
def LeadsTo (g : Graph) : FileId → FileId → Prop := TransGen g.Imports

end Graph

namespace Link

variable {g : Graph} {waiting seen names : List FileId}

/-! ## Spreading -/

/-- What the files found have to do with the names that waited and the files found before. -/
structure Spread (g : Graph) (waiting seen names : List FileId) : Prop where
  /-- No file is found twice. -/
  nodup : seen.Nodup → names.Nodup
  /-- What was found stays found. -/
  old : seen ⊆ names
  /-- Whatever was waiting is found. -/
  covers : waiting ⊆ names
  /-- A file that was not found before is in the graph, and its imports are found with it. -/
  closed : ∀ n ∈ names, n ∉ seen →
    ∃ file, g.files.find? n = some file ∧ file.imports ⊆ names
  /-- Only what a waiting name leads to is found. -/
  led : ∀ n ∈ names, n ∈ seen ∨ ∃ w ∈ waiting, ReflTransGen g.Imports w n

theorem Spread.skip {name : FileId} (old : name ∈ seen) (h : Spread g waiting seen names) :
    Spread g (name :: waiting) seen names where
  nodup := h.nodup
  old := h.old
  covers := List.cons_subset.mpr ⟨h.old old, h.covers⟩
  closed := h.closed
  led n hn := (h.led n hn).imp_right fun ⟨w, hw, path⟩ ↦ ⟨w, List.mem_cons_of_mem _ hw, path⟩

/-- A name that was not found before stands for itself and for its imports. -/
theorem Spread.visit {name : FileId} {file : SourceFile} (new : name ∉ seen)
    (found : g.files.find? name = some file)
    (h : Spread g (waiting ++ file.imports.filter (· ∉ seen ++ [name])) (seen ++ [name]) names) :
    Spread g (name :: waiting) seen names where
  nodup hs := h.nodup (List.nodup_append.mpr
    ⟨hs, List.nodup_singleton _, fun a ha b hb ↦ by
      rw [List.mem_singleton.mp hb]
      rintro rfl
      exact new ha⟩)
  old := fun n hn ↦ h.old (List.mem_append_left _ hn)
  covers := List.cons_subset.mpr ⟨h.old (List.mem_append_right _ List.mem_cons_self),
    fun n hn ↦ h.covers (List.mem_append_left _ hn)⟩
  closed n hn hs := by
    by_cases same : n = name
    · subst same
      refine ⟨file, found, fun i hi ↦ ?_⟩
      by_cases old : i ∈ seen ++ [n]
      · exact h.old old
      · exact h.covers (List.mem_append_right _ (List.mem_filter.mpr ⟨hi, by simpa using old⟩))
    · exact h.closed n hn (by simp [hs, same])
  led n hn := by
    rcases h.led n hn with old | ⟨w, hw, path⟩
    · rcases List.mem_append.mp old with old | old
      · exact Or.inl old
      · rw [List.mem_singleton] at old
        exact Or.inr ⟨name, List.mem_cons_self, old ▸ .refl⟩
    · rcases List.mem_append.mp hw with hw | hw
      · exact Or.inr ⟨w, List.mem_cons_of_mem _ hw, path⟩
      · have step : g.Imports name w := ⟨file, found, List.mem_of_mem_filter hw⟩
        exact Or.inr ⟨name, List.mem_cons_self, .head step path⟩

/-! ## The turns of the queue -/

variable {name : FileId} {file : SourceFile}

theorem spread_of_old (old : name ∈ seen) :
    spread g (name :: waiting) seen = spread g waiting seen := by
  rw [spread, dif_pos old]

theorem spread_of_missing (new : name ∉ seen) (missing : g.files.find? name = none) :
    spread g (name :: waiting) seen = .error (.missingFile name) := by
  rw [spread, dif_neg new]
  split
  · rfl
  · rename_i found
    rw [missing] at found
    cases found

theorem spread_of_found (new : name ∉ seen) (found : g.files.find? name = some file) :
    spread g (name :: waiting) seen =
      spread g (waiting ++ file.imports.filter (· ∉ seen ++ [name])) (seen ++ [name]) := by
  rw [spread, dif_neg new]
  split
  · rename_i missing
    rw [missing] at found
    cases found
  · rename_i file' found'
    obtain rfl : file = file' := Option.some.inj (found.symm.trans found')
    rfl

theorem spread_ok (h : spread g waiting seen = .ok names) : Spread g waiting seen names := by
  induction waiting, seen using spread.induct g with
  | case1 seen =>
    rw [spread] at h
    obtain rfl := Except.ok.inj h
    exact ⟨id, List.Subset.refl _, List.nil_subset _, fun n hn hs ↦ absurd hn hs,
      fun n hn ↦ Or.inl hn⟩
  | case2 seen name rest old ih =>
    rw [spread_of_old old] at h
    exact (ih h).skip old
  | case3 seen name rest new missing =>
    rw [spread_of_missing new missing] at h
    cases h
  | case4 seen name rest new file found ih =>
    rw [spread_of_found new found] at h
    exact (ih h).visit new found

theorem spread_error {e : LinkError} (h : spread g waiting seen = .error e) :
    ∃ w ∈ waiting, ∃ n, ReflTransGen g.Imports w n ∧ g.files.find? n = none ∧
      e = .missingFile n := by
  induction waiting, seen using spread.induct g with
  | case1 seen =>
    rw [spread] at h
    cases h
  | case2 seen name rest old ih =>
    rw [spread_of_old old] at h
    obtain ⟨w, hw, n, path, missing, rfl⟩ := ih h
    exact ⟨w, List.mem_cons_of_mem _ hw, n, path, missing, rfl⟩
  | case3 seen name rest new missing =>
    rw [spread_of_missing new missing] at h
    exact ⟨name, List.mem_cons_self, name, .refl, missing, (Except.error.inj h).symm⟩
  | case4 seen name rest new file found ih =>
    rw [spread_of_found new found] at h
    obtain ⟨w, hw, n, path, missing, rfl⟩ := ih h
    rcases List.mem_append.mp hw with hw | hw
    · exact ⟨w, List.mem_cons_of_mem _ hw, n, path, missing, rfl⟩
    · -- The name that waits was put in the queue as an import of the one just found.
      have step : g.Imports name w := ⟨file, found, List.mem_of_mem_filter hw⟩
      exact ⟨name, List.mem_cons_self, n, .head step path, missing, rfl⟩

/-! ## The closure of a file -/

variable {f : FileId} {source : SourceFile}

theorem nodup_closure (h : closure g source = .ok names) : names.Nodup :=
  (spread_ok h).nodup List.nodup_nil

theorem exists_file_of_mem_closure (h : closure g source = .ok names) {n : FileId}
    (hn : n ∈ names) : ∃ file, g.files.find? n = some file := by
  obtain ⟨file, found, -⟩ := (spread_ok h).closed n hn List.not_mem_nil
  exact ⟨file, found⟩

/-- **The closure of a file holds what imports lead to.** -/
theorem mem_closure_iff (hf : g.files.find? f = some source) (h : closure g source = .ok names)
    {n : FileId} : n ∈ names ↔ g.LeadsTo f n := by
  have spread := spread_ok h
  constructor
  · intro hn
    rcases spread.led n hn with old | ⟨w, hw, path⟩
    · exact absurd old List.not_mem_nil
    · exact .head' ⟨source, hf, hw⟩ path
  · intro path
    induction path with
    | single first =>
      obtain ⟨file, hf', hn⟩ := first
      obtain rfl : source = file := Option.some.inj (hf.symm.trans hf')
      exact spread.covers hn
    | tail _ last ih =>
      obtain ⟨file, found, hn⟩ := last
      obtain ⟨file', found', imports⟩ := spread.closed _ ih List.not_mem_nil
      obtain rfl : file = file' := Option.some.inj (found.symm.trans found')
      exact imports hn

/-- **A closure that does not exist misses a file that imports lead to.** -/
theorem closure_error (hf : g.files.find? f = some source) {e : LinkError}
    (h : closure g source = .error e) :
    ∃ n, g.LeadsTo f n ∧ g.files.find? n = none ∧ e = .missingFile n := by
  obtain ⟨w, hw, n, path, missing, rfl⟩ := spread_error h
  exact ⟨n, .head' ⟨source, hf, hw⟩ path, missing, rfl⟩

/-! ## The descriptions of the files -/

/-- Files of the graph can all be described, and the descriptions come in the order of the names. -/
theorem mapM_import_of_present (present : ∀ n ∈ names, ∃ file, g.files.find? n = some file) :
    ∃ es, (names.mapM fun name ↦ return (name, ← import? g name) :
        Except LinkError (List (FileId × Module.Import Module))) = .ok es ∧
      es.map Prod.fst = names ∧
      ∀ e ∈ es, ∃ file, g.files.find? e.1 = some file ∧ e.2 = importOf file := by
  induction names with
  | nil => exact ⟨[], rfl, rfl, fun e he ↦ absurd he List.not_mem_nil⟩
  | cons n rest ih =>
    obtain ⟨file, found⟩ := present n List.mem_cons_self
    obtain ⟨es, made, keys, entries⟩ := ih fun n hn ↦ present n (List.mem_cons_of_mem _ hn)
    refine ⟨(n, importOf file) :: es, ?_, ?_, ?_⟩
    · have first : import? g n = .ok (importOf file) := by rw [import?, found]
      rw [List.mapM_cons, made, first]
      rfl
    · rw [List.map_cons, keys]
    · intro e he
      rcases List.mem_cons.mp he with rfl | he
      · exact ⟨file, found, rfl⟩
      · exact entries e he

theorem transitiveImports_eq (h : closure g source = .ok names) :
    transitiveImports g source =
      (names.mapM fun name ↦ return (name, ← import? g name)) >>= fun es ↦ return ⟨es⟩ := by
  rw [transitiveImports, h]
  rfl

/-- When the closure exists, so do the descriptions, one for each name in it. -/
theorem transitiveImports_of_closure (h : closure g source = .ok names) :
    ∃ imports, transitiveImports g source = .ok imports ∧ imports.keys = names ∧
      ∀ e ∈ imports.entries, ∃ file, g.files.find? e.1 = some file ∧ e.2 = importOf file := by
  obtain ⟨es, made, keys, entries⟩ :=
    mapM_import_of_present fun n hn ↦ exists_file_of_mem_closure h hn
  refine ⟨⟨es⟩, ?_, keys, entries⟩
  rw [transitiveImports_eq h, made]
  rfl

theorem closure_of_transitiveImports {imports : Table FileId (Module.Import Module)}
    (h : transitiveImports g source = .ok imports) : closure g source = .ok imports.keys := by
  cases hc : closure g source with
  | error e =>
    rw [transitiveImports, hc] at h
    cases h
  | ok names =>
    obtain ⟨imports', made, keys, -⟩ := transitiveImports_of_closure hc
    obtain rfl : imports = imports' := Except.ok.inj (h.symm.trans made)
    rw [keys]

theorem exists_file_of_leadsTo {imports : Table FileId (Module.Import Module)}
    (hf : g.files.find? f = some source) (closed : transitiveImports g source = .ok imports)
    {n : FileId} (path : g.LeadsTo f n) : ∃ file, g.files.find? n = some file := by
  have names := closure_of_transitiveImports closed
  exact exists_file_of_mem_closure names ((mem_closure_iff hf names).mpr path)

theorem exists_file_of_mem_imports {imports : Table FileId (Module.Import Module)}
    (closed : transitiveImports g source = .ok imports)
    {e : FileId × Module.Import Module} (he : e ∈ imports.entries) :
    ∃ file, g.files.find? e.1 = some file ∧ e.2 = importOf file := by
  obtain ⟨imports', made, -, described⟩ :=
    transitiveImports_of_closure (closure_of_transitiveImports closed)
  obtain rfl := Except.ok.inj (closed.symm.trans made)
  exact described e he

/-- Nothing but the closure can fail. -/
theorem closure_error_of_transitiveImports {e : LinkError}
    (h : transitiveImports g source = .error e) : closure g source = .error e := by
  cases hc : closure g source with
  | error e' =>
    rw [transitiveImports, hc] at h
    cases h
    rfl
  | ok names =>
    obtain ⟨imports', made, -⟩ := transitiveImports_of_closure hc
    rw [made] at h
    cases h

end Link

end IdlLinker
