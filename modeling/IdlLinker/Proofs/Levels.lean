import IdlLinker.Proofs.Imports

/-!
# The order of transitive imports

The names of the transitive imports come out of a queue, and their order decides the numbers of all
imports and which missing file is reported. The order can be said without a queue. The imports of
the file make up the first *level*, and the imports of what is on a level make up the next, in
order; a name counts at its first occurrence only. The transitive imports are the levels, one after
the other, and if a file is missing, then the first one that is missing there is reported.

## What the queue does differently

A queue holds names of two levels at a time, some of them more than once, and some that were found
since they came to wait. None of this matters: names that are found already can be put into the
queue or left out of it (`spread_eq_of_filter_eq`). So a queue may be given all imports of a file
when the file is found, and working it off for the length of one level leaves exactly the imports of
that level in it (`spread_level`).

## Distance

A name is on the level that is its *distance* from the file: the least number of imports that lead
there (`mem_level_iff`). The file itself has no level but the one on which a cycle comes back to it.
-/

namespace IdlLinker

open IdlLinker.Graph

namespace Link

/-! ## Levels -/

/-- The names that are not known yet, each at its first occurrence. -/
def fresh (known names : List FileId) : List FileId := (names.filter (· ∉ known)).eraseDups

mutual

/-- The names that are first met after `k` further imports. The level of the imports of the file is
number zero. -/
def level (g : Graph) (source : SourceFile) : Nat → List FileId
  | 0 => source.imports.eraseDups
  | k + 1 => fresh (levelsBelow g source k ++ level g source k)
      ((level g source k).flatMap (importsOf g))

/-- The names of the first `k` levels, one level after the other. -/
def levelsBelow (g : Graph) (source : SourceFile) : Nat → List FileId
  | 0 => []
  | k + 1 => levelsBelow g source k ++ level g source k

end

/-- What the next level is taken from: the imports of the level before, or of the file. -/
def offered (g : Graph) (source : SourceFile) : Nat → List FileId
  | 0 => source.imports
  | k + 1 => (level g source k).flatMap (importsOf g)

/-- A chain of so many imports leads from a file to a name. -/
inductive ImportChain (g : Graph) (source : SourceFile) : Nat → FileId → Prop
  | direct {name : FileId} (first : name ∈ source.imports) : ImportChain g source 1 name
  | further {n : Nat} {a name : FileId} (before : ImportChain g source n a)
      (last : g.Imports a name) : ImportChain g source (n + 1) name

/-- The least number of imports that lead from a file to a name. -/
def IsDistance (g : Graph) (source : SourceFile) (n : Nat) (name : FileId) : Prop :=
  ImportChain g source n name ∧ ∀ m < n, ¬ImportChain g source m name

variable {g : Graph} {source : SourceFile} {known names : List FileId} {name : FileId} {k : Nat}

/-! ## New names -/

theorem fresh_cons_of_mem (old : name ∈ known) :
    fresh known (name :: names) = fresh known names := by
  rw [fresh, List.filter_cons_of_neg (by simpa using old), fresh]

theorem fresh_cons_of_new (new : name ∉ known) :
    fresh known (name :: names) = name :: fresh (known ++ [name]) names := by
  rw [fresh, List.filter_cons_of_pos (by simpa using new), List.eraseDups_cons,
    List.filter_filter, fresh]
  congr 2
  apply List.filter_congr
  intro n _
  by_cases same : n = name <;> simp [same, new]

theorem mem_fresh : name ∈ fresh known names ↔ name ∈ names ∧ name ∉ known := by
  simp [fresh]

theorem nodup_fresh (known names : List FileId) : (fresh known names).Nodup := by
  induction names generalizing known with
  | nil => exact List.nodup_nil
  | cons name names ih =>
    by_cases old : name ∈ known
    · rw [fresh_cons_of_mem old]
      exact ih known
    · rw [fresh_cons_of_new old, List.nodup_cons]
      exact ⟨fun twice ↦ (mem_fresh.mp twice).2 (by simp), ih _⟩

theorem fresh_of_nodup (once : names.Nodup) (new : ∀ n ∈ names, n ∉ known) :
    fresh known names = names := by
  induction names generalizing known with
  | nil => rfl
  | cons name names ih =>
    obtain ⟨apart, once⟩ := List.nodup_cons.mp once
    rw [fresh_cons_of_new (new name List.mem_cons_self), ih once]
    intro n hn known'
    rcases List.mem_append.mp known' with old | last
    · exact new n (List.mem_cons_of_mem _ hn) old
    · rw [List.mem_singleton] at last
      exact apart (last ▸ hn)

/-! ## What is on a level -/

theorem level_eq_fresh (k : Nat) :
    level g source k = fresh (levelsBelow g source k) (offered g source k) := by
  cases k with
  | zero => simp [level, levelsBelow, offered, fresh]
  | succ k => rw [level, levelsBelow, offered]

theorem mem_importsOf {a : FileId} : name ∈ importsOf g a ↔ g.Imports a name := by
  rw [importsOf, Imports]
  cases g.files.find? a <;> simp

theorem mem_levelsBelow : name ∈ levelsBelow g source k ↔ ∃ j < k, name ∈ level g source j := by
  induction k with
  | zero => simp [levelsBelow]
  | succ k ih =>
    rw [levelsBelow, List.mem_append, ih]
    constructor
    · rintro (⟨j, less, on⟩ | on)
      · exact ⟨j, by omega, on⟩
      · exact ⟨k, by omega, on⟩
    · rintro ⟨j, less, on⟩
      by_cases last : j = k
      · exact Or.inr (last ▸ on)
      · exact Or.inl ⟨j, by omega, on⟩

theorem levelsBelow_mono {j k : Nat} (le : j ≤ k) :
    levelsBelow g source j <+: levelsBelow g source k := by
  induction le with
  | refl => exact List.prefix_rfl
  | step _ ih => exact ih.trans (List.prefix_append _ _)

theorem mem_of_offered (h : name ∈ offered g source k) :
    name ∈ levelsBelow g source (k + 1) := by
  rw [levelsBelow, level_eq_fresh, List.mem_append, mem_fresh]
  by_cases old : name ∈ levelsBelow g source k
  · exact Or.inl old
  · exact Or.inr ⟨h, old⟩

theorem importChain_of_mem_level (h : name ∈ level g source k) :
    ImportChain g source (k + 1) name := by
  induction k generalizing name with
  | zero => exact .direct (List.mem_eraseDups.mp h)
  | succ k ih =>
    rw [level, mem_fresh, List.mem_flatMap] at h
    obtain ⟨⟨a, on, last⟩, -⟩ := h
    exact .further (ih on) (mem_importsOf.mp last)

theorem mem_levelsBelow_of_importChain {n : Nat} (chain : ImportChain g source n name) :
    name ∈ levelsBelow g source n := by
  induction chain with
  | direct first => exact mem_of_offered first
  | @further n a name _ last ih =>
    obtain ⟨j, less, on⟩ := mem_levelsBelow.mp ih
    have offer : name ∈ offered g source (j + 1) :=
      List.mem_flatMap.mpr ⟨a, on, mem_importsOf.mpr last⟩
    exact (levelsBelow_mono (by omega)).subset (mem_of_offered offer)

/-- **A level holds the names at its distance.** -/
theorem mem_level_iff : name ∈ level g source k ↔ IsDistance g source (k + 1) name := by
  constructor
  · intro on
    refine ⟨importChain_of_mem_level on, fun m less shorter ↦ ?_⟩
    rw [level_eq_fresh, mem_fresh] at on
    have below := mem_levelsBelow_of_importChain shorter
    exact on.2 ((levelsBelow_mono (by omega)).subset below)
  · rintro ⟨chain, shortest⟩
    obtain ⟨j, less, on⟩ := mem_levelsBelow.mp (mem_levelsBelow_of_importChain chain)
    by_cases last : j = k
    · exact last ▸ on
    · exact absurd (importChain_of_mem_level on) (shortest _ (by omega))

theorem IsDistance.unique {m n : Nat} (h : IsDistance g source m name)
    (h' : IsDistance g source n name) : m = n := by
  rcases Nat.lt_trichotomy m n with less | same | more
  · exact absurd h.1 (h'.2 m less)
  · exact same
  · exact absurd h'.1 (h.2 n more)

/-- From level to level the distance grows, and on a level it is the same. -/
theorem pairwise_levelsBelow (k : Nat) :
    (levelsBelow g source k).Pairwise fun a b ↦
      ∀ m n, IsDistance g source m a → IsDistance g source n b → m ≤ n := by
  induction k with
  | zero => exact .nil
  | succ k ih =>
    rw [levelsBelow, List.pairwise_append]
    refine ⟨ih, List.pairwise_of_forall_mem_list ?_, ?_⟩
    · intro a ha b hb m n near far
      rw [near.unique (mem_level_iff.mp ha), far.unique (mem_level_iff.mp hb)]
    · intro a ha b hb m n near far
      obtain ⟨j, less, on⟩ := mem_levelsBelow.mp ha
      rw [near.unique (mem_level_iff.mp on), far.unique (mem_level_iff.mp hb)]
      omega

/-! ## The levels come to an end -/

theorem nodup_levelsBelow (k : Nat) : (levelsBelow g source k).Nodup := by
  induction k with
  | zero => exact List.nodup_nil
  | succ k ih =>
    rw [levelsBelow, level_eq_fresh, List.nodup_append]
    refine ⟨ih, nodup_fresh _ _, ?_⟩
    rintro a below b on rfl
    exact (mem_fresh.mp on).2 below

/-- All names that are imported anywhere. -/
def imported (g : Graph) (source : SourceFile) : List FileId :=
  source.imports ++ g.files.keys.flatMap (importsOf g)

theorem levelsBelow_subset_imported (k : Nat) :
    levelsBelow g source k ⊆ imported g source := by
  intro name below
  obtain ⟨j, -, on⟩ := mem_levelsBelow.mp below
  cases importChain_of_mem_level on with
  | direct first => exact List.mem_append_left _ first
  | @further _ a _ _ last =>
    obtain ⟨file, found, -⟩ := id last
    exact List.mem_append_right _ (List.mem_flatMap.mpr
      ⟨a, Table.mem_keys_of_find? found, mem_importsOf.mpr last⟩)

theorem level_eq_nil_of_le {j k : Nat} (ended : level g source j = []) (le : j ≤ k) :
    level g source k = [] := by
  induction le with
  | refl => exact ended
  | step _ ih => simp [level, ih, fresh]

theorem le_length_levelsBelow (going : level g source k ≠ []) :
    k < (levelsBelow g source (k + 1)).length := by
  induction k with
  | zero => simpa [levelsBelow, List.length_pos_iff] using going
  | succ k ih =>
    have before : level g source k ≠ [] := fun ended ↦ going (level_eq_nil_of_le ended (by omega))
    have more := List.length_pos_iff.mpr going
    rw [levelsBelow, List.length_append]
    have := ih before
    omega

theorem exists_level_eq_nil (g : Graph) (source : SourceFile) :
    ∃ d, level g source d = [] := by
  refine ⟨(imported g source).length, ?_⟩
  by_contra going
  have many := le_length_levelsBelow going
  have few : (levelsBelow g source ((imported g source).length + 1)).length ≤
      (imported g source).length :=
    (List.subperm_of_subset (nodup_levelsBelow _) (levelsBelow_subset_imported _)).length_le
  omega

/-! ## The queue -/

variable {waiting waiting' seen later before after : List FileId} {file : SourceFile}

theorem spread_append_of_seen (old : ∀ n ∈ before, n ∈ seen) :
    spread g (before ++ waiting) seen = spread g waiting seen := by
  induction before with
  | nil => rfl
  | cons name before ih =>
    obtain ⟨this, others⟩ := List.forall_mem_cons.mp old
    rw [List.cons_append, spread_of_old this, ih others]

/-- A queue that holds only names that are found already comes to its end. -/
theorem spread_of_all_seen (old : ∀ n ∈ waiting, n ∈ seen) : spread g waiting seen = .ok seen := by
  rw [← List.append_nil waiting, spread_append_of_seen old, spread]

/-- Of what is waiting only those names matter that are not found already. -/
theorem spread_eq_of_filter_eq
    (same : waiting.filter (· ∉ seen) = waiting'.filter (· ∉ seen)) :
    spread g waiting seen = spread g waiting' seen := by
  induction waiting, seen using spread.induct g generalizing waiting' with
  | case1 seen =>
    rw [eq_comm, List.filter_nil, List.filter_eq_nil_iff] at same
    have old : ∀ n ∈ waiting', n ∈ seen := by simpa using same
    rw [spread_of_all_seen old, spread]
  | case2 seen name rest old ih =>
    rw [spread_of_old old]
    apply ih
    rw [← same, List.filter_cons_of_neg (by simpa using old)]
  | case3 seen name rest new missing =>
    rw [List.filter_cons_of_pos (by simpa using new), eq_comm, List.filter_eq_cons_iff] at same
    obtain ⟨before, rest', rfl, old, -, -⟩ := same
    rw [spread_append_of_seen (by simpa using old), spread_of_missing new missing,
      spread_of_missing new missing]
  | case4 seen name rest new file found ih =>
    rw [List.filter_cons_of_pos (by simpa using new), eq_comm, List.filter_eq_cons_iff] at same
    obtain ⟨before, rest', rfl, old, -, same⟩ := same
    rw [spread_append_of_seen (by simpa using old), spread_of_found new found,
      spread_of_found new found]
    apply ih
    have narrower (names : List FileId) : names.filter (· ∉ seen ++ [name]) =
        (names.filter (· ∉ seen)).filter (· ∉ seen ++ [name]) := by
      rw [List.filter_filter]
      apply List.filter_congr
      intro n _
      by_cases h : n ∈ seen <;> simp [h]
    rw [List.filter_append, List.filter_append, narrower rest, ← same, ← narrower rest']

/-- A file that is found may put all its imports into the queue. -/
theorem spread_of_found_all (new : name ∉ seen) (found : g.files.find? name = some file) :
    spread g (name :: waiting) seen =
      spread g (waiting ++ importsOf g name) (seen ++ [name]) := by
  have own : importsOf g name = file.imports := by rw [importsOf, found]; rfl
  rw [spread_of_found new found, own]
  apply spread_eq_of_filter_eq
  rw [List.filter_append, List.filter_append, List.filter_filter]
  simp

/-- Working off a level, of which all files are there, leaves the imports of the level. -/
theorem spread_level (present : ∀ n ∈ fresh seen waiting, ∃ file, g.files.find? n = some file) :
    spread g (waiting ++ later) seen =
      spread g (later ++ (fresh seen waiting).flatMap (importsOf g))
        (seen ++ fresh seen waiting) := by
  induction waiting generalizing seen later with
  | nil => simp [fresh]
  | cons name waiting ih =>
    by_cases old : name ∈ seen
    · rw [fresh_cons_of_mem old] at present ⊢
      rw [List.cons_append, spread_of_old old, ih present]
    · rw [fresh_cons_of_new old] at present ⊢
      obtain ⟨⟨file, found⟩, others⟩ := List.forall_mem_cons.mp present
      rw [List.cons_append, spread_of_found_all old found, List.append_assoc, ih others]
      simp only [List.flatMap_cons, List.append_assoc, List.cons_append, List.nil_append]

/-- Working off a level stops at the first file of it that is missing. -/
theorem spread_level_missing (split : fresh seen waiting = before ++ name :: after)
    (present : ∀ n ∈ before, ∃ file, g.files.find? n = some file)
    (missing : g.files.find? name = none) :
    spread g (waiting ++ later) seen = .error (.missingFile name) := by
  induction waiting generalizing seen later before with
  | nil => simp [fresh] at split
  | cons first waiting ih =>
    by_cases old : first ∈ seen
    · rw [fresh_cons_of_mem old] at split
      rw [List.cons_append, spread_of_old old, ih split present]
    · rw [fresh_cons_of_new old] at split
      rw [List.cons_append]
      cases before with
      | nil =>
        obtain ⟨rfl, -⟩ := List.cons.inj split
        exact spread_of_missing old missing
      | cons first' before =>
        rw [List.cons_append] at split
        obtain ⟨rfl, rest⟩ := List.cons.inj split
        obtain ⟨⟨file, found⟩, others⟩ := List.forall_mem_cons.mp present
        rw [spread_of_found_all old found, List.append_assoc, ih rest others]

/-! ## The closure -/

/-- Where all files of the first levels are there, the queue comes to the next level. -/
theorem closure_eq_spread
    (present : ∀ n ∈ levelsBelow g source k, ∃ file, g.files.find? n = some file) :
    closure g source = spread g (offered g source k) (levelsBelow g source k) := by
  induction k with
  | zero => rw [closure, offered, levelsBelow]
  | succ k ih =>
    rw [levelsBelow, List.forall_mem_append] at present
    rw [ih present.1, ← List.append_nil (offered g source k),
      spread_level (by rw [← level_eq_fresh]; exact present.2), ← level_eq_fresh, List.nil_append,
      offered, levelsBelow]

theorem closure_of_level_eq_nil
    (present : ∀ n ∈ levelsBelow g source k, ∃ file, g.files.find? n = some file)
    (ended : level g source k = []) : closure g source = .ok (levelsBelow g source k) := by
  rw [closure_eq_spread present]
  apply spread_of_all_seen
  intro n offer
  by_contra new
  have on : n ∈ level g source k := by
    rw [level_eq_fresh, mem_fresh]
    exact ⟨offer, new⟩
  rw [ended] at on
  exact List.not_mem_nil on

/-- The first file that is missing stands on a level of which the files before it are there, as are
those of the levels below. -/
theorem closure_of_missing (split : levelsBelow g source k = before ++ name :: after)
    (present : ∀ n ∈ before, ∃ file, g.files.find? n = some file)
    (missing : g.files.find? name = none) : closure g source = .error (.missingFile name) := by
  induction k generalizing after with
  | zero => simp [levelsBelow] at split
  | succ k ih =>
    rw [levelsBelow] at split
    rcases List.append_eq_append_iff.mp split with ⟨before', rfl, on⟩ | ⟨after', below, on⟩
    · rw [List.forall_mem_append] at present
      rw [level_eq_fresh] at on
      rw [closure_eq_spread present.1, ← List.append_nil (offered g source k)]
      exact spread_level_missing on present.2 missing
    · cases after' with
      | nil =>
        rw [List.append_nil] at below
        rw [List.nil_append, level_eq_fresh] at on
        have split' : fresh (levelsBelow g source k) (offered g source k) = [] ++ name :: after :=
          on.symm
        rw [closure_eq_spread (below ▸ present), ← List.append_nil (offered g source k)]
        exact spread_level_missing split' (by simp) missing
      | cons name' after' =>
        obtain ⟨rfl, -⟩ := List.cons.inj on
        exact ih below

theorem exists_first_missing
    (lacks : ∃ n ∈ levelsBelow g source k, g.files.find? n = none) :
    ∃ first, (levelsBelow g source k).find? (fun n ↦ (g.files.find? n).isNone) = some first ∧
      closure g source = .error (.missingFile first) := by
  have isSome : ((levelsBelow g source k).find? fun n ↦ (g.files.find? n).isNone).isSome := by
    rw [List.find?_isSome]
    obtain ⟨n, below, missing⟩ := lacks
    exact ⟨n, below, Option.isNone_iff_eq_none.mpr missing⟩
  obtain ⟨first, found⟩ := Option.isSome_iff_exists.mp isSome
  obtain ⟨missing, before, after, split, present⟩ := List.find?_eq_some_iff_append.mp found
  refine ⟨first, found, closure_of_missing split ?_ (Option.isNone_iff_eq_none.mp missing)⟩
  intro n hn
  have there := present n hn
  rwa [Bool.not_eq_true', Option.isNone_eq_false_iff, Option.isSome_iff_exists] at there

theorem exists_level_of_closure (h : closure g source = .ok names) :
    ∃ d, level g source d = [] ∧ names = levelsBelow g source d := by
  obtain ⟨d, ended⟩ := exists_level_eq_nil g source
  refine ⟨d, ended, ?_⟩
  have present : ∀ n ∈ levelsBelow g source d, ∃ file, g.files.find? n = some file := by
    intro n below
    by_contra missing
    rw [← Option.isSome_iff_exists, Option.not_isSome_iff_eq_none] at missing
    obtain ⟨first, -, failed⟩ := exists_first_missing ⟨n, below, missing⟩
    rw [failed] at h
    cases h
  rw [closure_of_level_eq_nil present ended] at h
  exact (Except.ok.inj h).symm

theorem eraseDups_prefix_closure (h : closure g source = .ok names) :
    source.imports.eraseDups <+: names := by
  obtain ⟨d, ended, rfl⟩ := exists_level_of_closure h
  by_cases noLevel : d = 0
  · rw [noLevel, level] at ended
    rw [ended]
    exact List.nil_prefix
  · have first : levelsBelow g source 1 <+: levelsBelow g source d :=
      levelsBelow_mono (Nat.one_le_iff_ne_zero.mpr noLevel)
    rwa [levelsBelow, levelsBelow, List.nil_append, level] at first

theorem transitiveImports_of_closure_error {e : LinkError} (h : closure g source = .error e) :
    transitiveImports g source = .error e := by
  rw [transitiveImports, h]
  rfl

end Link

open Link

/-- **How the levels of imports and the transitive imports of a file belong together.** -/
structure ListedByLevel (g : Graph) (source : SourceFile) : Prop where
  /-- The levels come to an end. -/
  ends : ∃ d, ∀ k, d ≤ k → level g source k = []
  /-- A level holds what is at its distance. -/
  distance : ∀ k name, name ∈ level g source k ↔ IsDistance g source (k + 1) name
  /-- If all files on the levels are there, the transitive imports are the levels in order. -/
  lists : (∀ k, ∀ name ∈ level g source k, ∃ file, g.files.find? name = some file) →
    ∃ imports, transitiveImports g source = .ok imports ∧
      ∀ d, level g source d = [] → imports.keys = levelsBelow g source d
  /-- If a file is missing on a level, the error names the first that is missing. -/
  misses : ∀ k, (∃ name ∈ level g source k, g.files.find? name = none) →
    ∃ first, (levelsBelow g source (k + 1)).find? (fun n ↦ (g.files.find? n).isNone) =
        some first ∧
      transitiveImports g source = .error (.missingFile first)
  /-- The direct imports come first, and the distance does not decrease. -/
  sorted : ∀ imports, transitiveImports g source = .ok imports →
    source.imports.eraseDups <+: imports.keys ∧
      imports.keys.Pairwise fun a b ↦
        ∀ m n, IsDistance g source m a → IsDistance g source n b → m ≤ n

/-- **The transitive imports of a file are listed level by level**, in every graph. -/
theorem listedByLevel (g : Graph) (source : SourceFile) : ListedByLevel g source := by
  obtain ⟨d, ended⟩ := exists_level_eq_nil g source
  constructor
  · exact ⟨d, fun k le ↦ level_eq_nil_of_le ended le⟩
  · intro k name
    exact mem_level_iff
  · intro present
    have below (k : Nat) : ∀ n ∈ levelsBelow g source k, ∃ file, g.files.find? n = some file := by
      intro n hn
      obtain ⟨j, -, on⟩ := mem_levelsBelow.mp hn
      exact present j n on
    have closed := closure_of_level_eq_nil (below d) ended
    obtain ⟨imports, found, keys, -⟩ := transitiveImports_of_closure closed
    refine ⟨imports, found, fun d' ended' ↦ ?_⟩
    have closed' := closure_of_level_eq_nil (below d') ended'
    rw [keys]
    exact Except.ok.inj (closed.symm.trans closed')
  · rintro k ⟨name, on, missing⟩
    have below : name ∈ levelsBelow g source (k + 1) := mem_levelsBelow.mpr ⟨k, by omega, on⟩
    obtain ⟨first, found, failed⟩ := exists_first_missing ⟨name, below, missing⟩
    exact ⟨first, found, transitiveImports_of_closure_error failed⟩
  · intro imports found
    have closed := closure_of_transitiveImports found
    refine ⟨eraseDups_prefix_closure closed, ?_⟩
    obtain ⟨d', -, keys⟩ := exists_level_of_closure closed
    rw [keys]
    exact pairwise_levelsBelow d'

/-- The file itself comes last here: it is found only when the files that it imports are through. -/
example : levelsBelow Graph.tangle { fileName := "a", imports? := some ["b", "c", "b"] } 3 =
    ["b", "c", "d", "a"] := by decide

end IdlLinker
