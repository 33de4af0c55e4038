import IdlLinker.Proofs.Defect

/-!
# What a link looks at

To link a file is to look up its own entry, the files that its imports lead to, and the keys that it
reaches. Nothing else is looked at: two graphs that agree there give the same outcome, with the same
numbers and in the same order, or the same error. So it makes no difference in which order a graph
lists its entries, what else it holds, or what an imported file declares.

## Lockstep

On the closure the two queues hold the same names at every turn, and only names that imports lead to
are looked up. On the walk the tasks and visits are the same at every turn, and every task is
warranted; so each key that a turn looks up is reached. Reaching is meant in the first graph
throughout. Nothing has to be known of what the second one reaches.
-/

namespace IdlLinker

open IdlLinker.Graph

/-! ## Agreement -/

namespace Graph

/-- Two source files say the same to a file that imports them. What they declare is left out. -/
structure SourceFile.SameHeading (a b : SourceFile) : Prop where
  fileName : a.fileName = b.fileName
  specifiedName : a.specifiedName = b.specifiedName
  moduleNamespace : a.moduleNamespace = b.moduleNamespace
  attributes : a.attributes? = b.attributes?
  imports : a.imports = b.imports

theorem SourceFile.SameHeading.refl (a : SourceFile) : a.SameHeading a :=
  ⟨rfl, rfl, rfl, rfl, rfl⟩

theorem SourceFile.rel_sameHeading_self (file? : Option SourceFile) :
    Option.Rel SourceFile.SameHeading file? file? := by
  cases file? with
  | none => exact .none
  | some file => exact .some (.refl file)

/-- **Two graphs agree on all that a link of a file looks at.** An entry may be missing, if it is
missing in both. -/
structure AgreesFor (g g' : Graph) (f : FileId) : Prop where
  file : g.files.find? f = g'.files.find? f
  imports : ∀ n, g.LeadsTo f n →
    Option.Rel SourceFile.SameHeading (g.files.find? n) (g'.files.find? n)
  types : ∀ key expected?, g.Reaches f (.type key expected?) →
    g.types.find? key = g'.types.find? key
  values : ∀ key, g.Reaches f (.constant key) ∨ g.Reaches f (.value key) →
    g.values.find? key = g'.values.find? key

/-- Two graphs say the same of every file that imports of a file lead to. -/
def SameHeadings (g g' : Graph) (f : FileId) : Prop :=
  ∀ n, g.LeadsTo f n → Option.Rel SourceFile.SameHeading (g.files.find? n) (g'.files.find? n)

variable {g g' : Graph} {f n : FileId}

theorem SameHeadings.missing (same : g.SameHeadings g' f) (path : g.LeadsTo f n)
    (h : g.files.find? n = none) : g'.files.find? n = none := by
  have heading := same n path
  rw [h] at heading
  generalize g'.files.find? n = file'? at heading
  cases heading
  rfl

theorem SameHeadings.found (same : g.SameHeadings g' f) (path : g.LeadsTo f n) {file : SourceFile}
    (h : g.files.find? n = some file) :
    ∃ file', g'.files.find? n = some file' ∧ file.SameHeading file' := by
  have heading := same n path
  rw [h] at heading
  generalize g'.files.find? n = file'? at heading
  cases heading with
  | some heading => exact ⟨_, rfl, heading⟩

end Graph

namespace Link

variable {g g' : Graph} {f : FileId} {s : Scope} {task : Task} {tasks tasks' : List Task}
  {v v' : Visits} {waiting seen names : List FileId} {source : SourceFile}

/-! ## The closure -/

/-- The queues of two graphs spread alike as long as imports lead to what is waiting. -/
theorem spread_congr (same : g.SameHeadings g' f) (led : ∀ w ∈ waiting, g.LeadsTo f w) :
    spread g waiting seen = spread g' waiting seen := by
  induction waiting, seen using spread.induct g with
  | case1 seen => rw [spread, spread]
  | case2 seen name rest old ih =>
    rw [spread_of_old old, spread_of_old old]
    exact ih (List.forall_mem_cons.mp led).2
  | case3 seen name rest new missing =>
    have missing' := same.missing (led name List.mem_cons_self) missing
    rw [spread_of_missing new missing, spread_of_missing new missing']
  | case4 seen name rest new file found ih =>
    obtain ⟨path, others⟩ := List.forall_mem_cons.mp led
    obtain ⟨file', found', heading⟩ := same.found path found
    rw [spread_of_found new found, spread_of_found new found', ← heading.imports]
    refine ih (List.forall_mem_append.mpr ⟨others, fun w hw ↦ ?_⟩)
    exact path.tail ⟨file, found, List.mem_of_mem_filter hw⟩

theorem closure_congr (same : g.SameHeadings g' f) (hf : g.files.find? f = some source) :
    closure g source = closure g' source :=
  spread_congr same fun _ hw ↦ .single ⟨source, hf, hw⟩

theorem metadata_congr {a b : SourceFile} (h : a.SameHeading b) : metadata a = metadata b := by
  rw [metadata, metadata, h.fileName, h.specifiedName, h.moduleNamespace, h.attributes]

theorem importOf_congr {a b : SourceFile} (h : a.SameHeading b) : importOf a = importOf b := by
  rw [importOf, importOf, metadata_congr h]

theorem import?_congr (same : g.SameHeadings g' f) {n : FileId}
    (path : g.LeadsTo f n) : import? g n = import? g' n := by
  rw [import?, import?]
  cases hn : g.files.find? n with
  | none => rw [same.missing path hn]
  | some file =>
    obtain ⟨file', found', heading⟩ := same.found path hn
    rw [found']
    exact congrArg Except.ok (importOf_congr heading)

theorem mapM_import_congr (same : ∀ n ∈ names, import? g n = import? g' n) :
    (names.mapM fun name ↦ return (name, ← import? g name) :
      Except LinkError (List (FileId × Module.Import Module))) =
      names.mapM fun name ↦ return (name, ← import? g' name) := by
  induction names with
  | nil => rfl
  | cons n rest ih =>
    obtain ⟨first, others⟩ := List.forall_mem_cons.mp same
    rw [List.mapM_cons, List.mapM_cons, ih others, first]

theorem transitiveImports_congr (same : g.SameHeadings g' f)
    (hf : g.files.find? f = some source) :
    transitiveImports g source = transitiveImports g' source := by
  have names := closure_congr same hf
  cases hc : closure g source with
  | error e => rw [transitiveImports, transitiveImports, ← names, hc]; rfl
  | ok found =>
    have led : ∀ n ∈ found, g.LeadsTo f n := fun n hn ↦ (mem_closure_iff hf hc).mp hn
    have described := mapM_import_congr fun n hn ↦ import?_congr same (led n hn)
    rw [transitiveImports_eq hc, transitiveImports_eq (names.symm.trans hc), described]

theorem transitiveImports_of_sameHeading {a b : SourceFile} (h : a.SameHeading b) :
    transitiveImports g a = transitiveImports g b := by
  rw [transitiveImports, transitiveImports, closure, closure, h.imports]

theorem outline_congr {a b : SourceFile} (h : a.SameHeading b) : outline a = outline b := by
  funext imports
  rw [outline, outline, metadata_congr h, h.imports]

/-! ## The walk -/

/-- A turn looks up the key of its task, and no other. -/
theorem turn_congr (agree : g.AgreesFor g' f) (ht : task.Warranted g f) :
    turn g s task v = turn g' s task v := by
  cases task with
  | meet r =>
    cases r with
    | type key expected? => rw [turn, turn, meetType, meetType, agree.types key _ (ht.use rfl)]
    | constant key => rw [turn, turn, agree.values key (Or.inl (ht.use rfl))]
    | value key => rw [turn, turn, agree.values key (Or.inr (ht.use rfl))]
    -- The other requirements are about the file alone.
    | _ => rfl
  | _ => rfl

theorem Run.congr (agree : g.AgreesFor g' f) (h : Run g s tasks v tasks' v')
    (hv : v.Reached g f) (ht : ∀ t ∈ tasks, t.Warranted g f) : Run g' s tasks v tasks' v' := by
  induction h with
  | refl => exact .refl
  | head first _ ih =>
    obtain ⟨warranted, others⟩ := List.forall_mem_cons.mp ht
    have first' := turn_congr agree warranted ▸ turn_eq_ok_iff.mpr first
    refine .head (turn_eq_ok_iff.mp first') (ih (first.reached hv warranted) ?_)
    exact List.forall_mem_append.mpr ⟨first.warranted hv warranted, others⟩

theorem walk_congr (agree : g.AgreesFor g' f) (hv : v.Reached g f)
    (ht : ∀ t ∈ tasks, t.Warranted g f) : walk g s tasks v = walk g' s tasks v := by
  rcases exists_run g s tasks v with ⟨v', run⟩ | ⟨task, rest, v', e, run, failed⟩
  · rw [run.walk_eq, (run.congr agree hv ht).walk_eq, walk_nil, walk_nil]
  · obtain ⟨-, warranted⟩ := run.warranted hv ht
    have failed' := turn_congr agree (warranted task List.mem_cons_self) ▸ failed
    rw [run.walk_eq, (run.congr agree hv ht).walk_eq, walk_of_error failed,
      walk_of_error failed']

end Link

/-! ## Linking -/

open Link

variable {g g' : Graph} {f : FileId}

/-- **Graphs that agree give the same outcome**, and the same happens on the way. -/
theorem link_congr (agree : g.AgreesFor g' f) : g.link f = g'.link f := by
  rw [Graph.link, Graph.link, ← agree.file]
  cases hf : g.files.find? f with
  | none => rfl
  | some source =>
    simp only [← transitiveImports_congr agree.imports hf]
    cases closed : transitiveImports g source with
    | error e => rfl
    | ok imports =>
      have walked : ∀ s, walk g s (start source) (unbegun f source imports) =
          walk g' s (start source) (unbegun f source imports) := fun s ↦
        walk_congr agree reached_unbegun
          (warranted_map_meet fun _ ↦ warranted_requirementsOfFile hf)
      rw [start, unbegun] at walked
      simp only [walked]

/-! ## Order -/

/-- Two graphs hold the same, in whatever order. -/
structure Graph.Rearranges (g g' : Graph) : Prop where
  files : g.files.entries.Perm g'.files.entries
  types : g.types.entries.Perm g'.types.entries
  values : g.values.entries.Perm g'.values.entries

/-- No key of a graph stands for two things. -/
structure Graph.Distinct (g : Graph) : Prop where
  files : g.files.keys.Nodup
  types : g.types.keys.Nodup
  values : g.values.keys.Nodup

/-- The order in which a graph lists its entries makes no difference to any file. -/
theorem link_eq_of_rearranges (distinct : g.Distinct) (h : g.Rearranges g') :
    g.link f = g'.link f := by
  have files : ∀ n, g.files.find? n = g'.files.find? n := fun n ↦
    Table.find?_eq_of_perm distinct.files h.files
  refine link_congr ⟨files f, fun n _ ↦ ?_, fun key _ _ ↦ ?_, fun key _ ↦ ?_⟩
  · rw [← files n]
    exact SourceFile.rel_sameHeading_self _
  · exact Table.find?_eq_of_perm distinct.types h.types
  · exact Table.find?_eq_of_perm distinct.values h.values

/-! ## Modules -/

/-- **The module of a file, or the error that stands for it, depends on nothing that the link does
not look at.** -/
theorem module_eq_of_agreesFor (agree : g.AgreesFor g' f) : g.module f = g'.module f := by
  rw [Graph.module, Graph.module, link_congr agree]

/-- A struct with a field of an imported type. -/
def Graph.tidy : Graph where
  files := ⟨[
    ("a",
      { fileName := "a", imports? := some ["b"], declared? := some { structs := ["a.S"] } }),
    ("b", { fileName := "b" })]⟩
  types := ⟨[
    ("a.S", .struct
      { info := { source? := some { fileName := "a" } }
        fields := [{ type := .reference { key := "b.U" } }] }),
    ("b.U", .union { info := { source? := some { fileName := "b" } } })]⟩

/-- The same in another order, among files and declarations that could not be linked. -/
def Graph.cluttered : Graph where
  files := ⟨[
    ("c", { fileName := "c", imports? := some ["d"] }),
    ("b", { fileName := "b", declared? := some { enums := ["b.E"] } }),
    ("a",
      { fileName := "a", imports? := some ["b"], declared? := some { structs := ["a.S"] } })]⟩
  types := ⟨[
    ("c.E", .enum { info := { container? := some "c.S" } }),
    ("b.U", .union { info := { source? := some { fileName := "b" } } }),
    ("a.S", .struct
      { info := { source? := some { fileName := "a" } }
        fields := [{ type := .reference { key := "b.U" } }] })]⟩
  values := ⟨[("c.E.A", .enumerator { enum := "c.E" })]⟩

theorem of_reaches_tidy {u : Use} (h : Graph.tidy.Reaches "a" u) :
    u = .type "a.S" (some .struct) ∨ u = .type "b.U" none := by
  induction h with
  | declared hf hd listed =>
    cases hf
    cases hd
    cases listed with
    | struct hk => exact Or.inl (by rw [List.mem_singleton.mp hk])
    | _ hk => cases hk
  | type _ found uses ih =>
    rcases ih with same | same
    · cases same
      cases found
      cases uses with
      | structField hf h =>
        obtain rfl := List.mem_singleton.mp hf
        cases h with
        | plain => exact Or.inr rfl
        | request h => cases h
      | structDefault hf hv =>
        obtain rfl := List.mem_singleton.mp hf
        cases hv
      | structNested h => cases h <;> contradiction
    · cases same
      cases found
      cases uses with
      | unionField hf => cases hf
  | constant _ _ _ ih => rcases ih with same | same <;> cases same
  | value _ _ _ ih => rcases ih with same | same <;> cases same

theorem of_leadsTo_tidy {n : FileId} (h : Graph.tidy.LeadsTo "a" n) : n = "b" := by
  induction h with
  | single first =>
    obtain ⟨file, found, hn⟩ := first
    cases found
    exact List.mem_singleton.mp hn
  | tail _ last ih =>
    obtain ⟨file, found, hn⟩ := last
    subst ih
    cases found
    cases hn

theorem agreesFor_cluttered : Graph.tidy.AgreesFor Graph.cluttered "a" where
  file := by rfl
  imports n path := by
    obtain rfl := of_leadsTo_tidy path
    exact .some ⟨rfl, rfl, rfl, rfl, rfl⟩
  types key expected? reached := by
    rcases of_reaches_tidy reached with same | same <;> cases same <;> rfl
  values key reached := by
    rcases reached with reached | reached <;>
      rcases of_reaches_tidy reached with same | same <;> cases same

theorem module_cluttered :
    Graph.tidy.AgreesFor Graph.cluttered "a" ∧
      Graph.tidy.module "a" = Graph.cluttered.module "a" :=
  ⟨agreesFor_cluttered, module_eq_of_agreesFor agreesFor_cluttered⟩

end IdlLinker
