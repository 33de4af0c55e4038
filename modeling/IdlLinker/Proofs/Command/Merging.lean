import IdlLinker.Command.Report
import IdlLinker.Proofs.Selection

/-!
# The files of several graphs

The commands link the selected files of one graph after the other. What they come to is said here
without their reports, and of all graphs at once: `picks` are the files that are selected, graph by
graph and in the order of the selections, and a file that is selected twice occurs twice.

* `translate` has modules if all picks can be linked. A table of them has the files in the order in
  which they occur first, and the module of a file is that of the last graph in which it is picked
  (`Merges`).
* If not, it fails with the first pick that cannot be linked (`FirstFailure`).
* `check` counts.

Within a graph a file is linked once, however often it is selected. That makes no difference to what
occurs first, and none to what fails first (`find?_eraseDups`).
-/

namespace IdlLinker.Command

/-! ## Results of steps -/

section Steps

variable {ε α β γ : Type}

@[simp] theorem Report.result_tell (notices : List Notice) :
    (Report.tell notices).result = .ok () := rfl

@[simp] theorem Report.result_fail (f : Failure) : (Report.fail f : Report α).result = .error f :=
  rfl

@[simp] theorem Report.result_ofExcept (result : Except Failure α) :
    (Report.ofExcept result).result = result := rfl

theorem Report.result_foldlM (f : β → α → Report β) (b : β) (xs : List α) :
    (xs.foldlM f b).result = xs.foldlM (fun b x ↦ (f b x).result) b := by
  induction xs generalizing b with
  | nil => rfl
  | cons x xs ih =>
    rw [List.foldlM_cons, List.foldlM_cons, Report.result_bind]
    exact congrArg (Except.bind _) (funext ih)

/-- Steps that fail or store what they come to do so after all of them have succeeded, just as
well. -/
theorem foldlM_map (f : α → Except ε β) (store : γ → β → γ) (c : γ) (xs : List α) :
    xs.foldlM (fun c x ↦ (f x).map (store c)) c = (xs.mapM f).map fun ys ↦ ys.foldl store c := by
  induction xs generalizing c with
  | nil => rfl
  | cons x xs ih =>
    rw [List.foldlM_cons]
    cases h : f x with
    | error e => rw [mapM_cons_of_error h]; rfl
    | ok y =>
      rw [mapM_cons_of_ok h]
      refine (ih (store c y)).trans ?_
      cases xs.mapM f <;> rfl

theorem foldlM_flatMap (g : α → List β) (f : γ → β → Except ε γ) (c : γ) (xs : List α) :
    (xs.flatMap g).foldlM f c = xs.foldlM (fun c x ↦ (g x).foldlM f c) c := by
  induction xs generalizing c with
  | nil => rfl
  | cons x xs ih =>
    rw [List.flatMap_cons, List.foldlM_append, List.foldlM_cons]
    exact congrArg (Except.bind _) (funext ih)

end Steps

/-! ## First occurrences -/

section Occurrences

variable {κ : Type} [DecidableEq κ]

theorem find?_eraseDups (p : κ → Bool) (ks : List κ) : ks.eraseDups.find? p = ks.find? p := by
  induction ks using List.reverseRecOn with
  | nil => rfl
  | append_singleton ks k ih =>
    rw [eraseDups_append_singleton, List.find?_append]
    split
    · rename_i old
      rw [ih]
      cases found : ks.find? p with
      | some k' => rfl
      | none => simp [List.find?_eq_none.mp found k old]
    · rw [List.find?_append, ih]

theorem eraseDups_append_eraseDups (ks ks' : List κ) :
    (ks ++ ks'.eraseDups).eraseDups = (ks ++ ks').eraseDups := by
  induction ks' using List.reverseRecOn with
  | nil => rfl
  | append_singleton ks' k ih =>
    rw [eraseDups_append_singleton, ← List.append_assoc, eraseDups_append_singleton]
    by_cases old : k ∈ ks'
    · rw [if_pos old, ih, if_pos (List.mem_append_right ks old)]
    · rw [if_neg old, ← List.append_assoc, eraseDups_append_singleton, ih]
      simp only [List.mem_append, List.mem_eraseDups]

theorem eraseDups_eraseDups_append (ks ks' : List κ) :
    (ks.eraseDups ++ ks').eraseDups = (ks ++ ks').eraseDups := by
  induction ks' using List.reverseRecOn with
  | nil => rw [List.append_nil, List.append_nil]; exact eraseDups_append_eraseDups [] ks
  | append_singleton ks' k ih =>
    rw [← List.append_assoc, ← List.append_assoc, eraseDups_append_singleton,
      eraseDups_append_singleton, ih]
    simp only [List.mem_append, List.mem_eraseDups]

/-- Repetitions may be dropped piece by piece. -/
theorem eraseDups_flatMap_eraseDups {α : Type} (f : α → List κ) (xs : List α) :
    (xs.flatMap fun x ↦ (f x).eraseDups).eraseDups = (xs.flatMap f).eraseDups := by
  induction xs with
  | nil => rfl
  | cons x xs ih =>
    rw [List.flatMap_cons, List.flatMap_cons, eraseDups_eraseDups_append,
      ← eraseDups_append_eraseDups, ih, eraseDups_append_eraseDups]

end Occurrences

/-! ## Picks -/

/-- The files that are selected in the graphs, each with its graph. -/
def picks (options : LinkOptions) (inputs : List Input) : List (Input × FileId) :=
  inputs.flatMap fun input ↦ (options.selected input.graph).map (input, ·)

/-- A file can be linked in its graph. -/
def Linkable (pick : Input × FileId) : Prop := ∃ m, pick.1.graph.module pick.2 = .ok m

/-- A file is the first that cannot be linked, with its graph and the error. -/
def FirstFailure (options : LinkOptions) (inputs : List Input) (input : Input) (file : FileId)
    (e : LinkError) : Prop :=
  ∃ before after, picks options inputs = before ++ (input, file) :: after ∧
    (∀ pick ∈ before, Linkable pick) ∧ input.graph.module file = .error e

/-- The modules of the picks: the files are in the order in which they occur first, and the module
of each is that of the last graph in which it is picked. -/
structure Merges (options : LinkOptions) (inputs : List Input) (modules : Table FileId Module) :
    Prop where
  keys : modules.keys = (inputs.flatMap fun input ↦ options.selected input.graph).eraseDups
  last : ∀ before input after file m, inputs = before ++ input :: after →
    file ∈ options.selected input.graph →
    (∀ later ∈ after, file ∉ options.selected later.graph) →
    input.graph.module file = .ok m → modules.find? file = some (options.place m)

/-- What a command is told of a pick. -/
def outcomeOf (options : LinkOptions) (pick : Input × FileId) : Except Failure (FileId × Module) :=
  match pick.1.graph.module pick.2 with
  | .ok m => .ok (pick.2, options.place m)
  | .error e => .error (.unlinked pick.1.label pick.2 e)

/-- The picks without repetitions within a graph. -/
def linkedPicks (options : LinkOptions) (inputs : List Input) : List (Input × FileId) :=
  inputs.flatMap fun input ↦ (options.selected input.graph).eraseDups.map (input, ·)

/-- Storing what comes of a pick. -/
def storeOutcome (options : LinkOptions) (modules : Table FileId Module)
    (pick : Input × FileId) : Except Failure (Table FileId Module) :=
  (outcomeOf options pick).map fun e ↦ modules.insert e.1 e.2

theorem result_addOutcome (options : LinkOptions) (input : Input) (file : FileId)
    (modules : Table FileId Module) :
    (addOutcome input.label modules (file, (input.graph.module file).map options.place)).result =
      storeOutcome options modules (input, file) := by
  rw [storeOutcome, outcomeOf]
  cases input.graph.module file with
  | error e => rfl
  | ok m =>
    simp only [Except.map, addOutcome]
    split <;> rfl

theorem result_link (options : LinkOptions) (input : Input) :
    (link options input).result = .ok (input.graph.linkEach options).outcomes := rfl

theorem result_linkInto (options : LinkOptions) (input : Input) (modules : Table FileId Module) :
    (link options input >>= fun outcomes ↦
        outcomes.entries.foldlM (addOutcome input.label) modules).result =
      ((options.selected input.graph).eraseDups.map (input, ·)).foldlM (storeOutcome options)
        modules := by
  rw [Report.result_bind, result_link, Except.bind, Graph.outcomes_linkEach, Report.result_foldlM,
    List.foldlM_map, List.foldlM_map]
  refine congrFun (congrFun (congrArg List.foldlM ?_) _) _
  funext modules file
  exact result_addOutcome options input file modules

/-- **Translating is linking all picks**, or failing with the first one that fails, and then storing
them one after the other. -/
theorem result_translate (options : LinkOptions) (inputs : List Input) :
    (translate options inputs).result =
      ((linkedPicks options inputs).mapM (outcomeOf options)).map Table.ofList := by
  calc (translate options inputs).result
    _ = inputs.foldlM (fun modules input ↦
          ((options.selected input.graph).eraseDups.map (input, ·)).foldlM (storeOutcome options)
            modules) .empty := by
      rw [translate, Report.result_foldlM]
      simp only [result_linkInto]
    _ = (linkedPicks options inputs).foldlM (storeOutcome options) .empty :=
      (foldlM_flatMap _ _ _ _).symm
    _ = ((linkedPicks options inputs).mapM (outcomeOf options)).map Table.ofList :=
      foldlM_map _ _ _ _

/-! ## All modules -/

variable {options : LinkOptions} {inputs : List Input} {input : Input} {file : FileId}

theorem outcomeOf_eq_ok_iff {pick : Input × FileId} {e : FileId × Module} :
    outcomeOf options pick = .ok e ↔
      e.1 = pick.2 ∧ ∃ m, pick.1.graph.module pick.2 = .ok m ∧ e.2 = options.place m := by
  obtain ⟨file', m'⟩ := e
  rw [outcomeOf]
  cases pick.1.graph.module pick.2 with
  | error e => simp
  | ok m => simp [eq_comm]

theorem outcomeOf_eq_error_iff {pick : Input × FileId} {f : Failure} :
    outcomeOf options pick = .error f ↔
      ∃ e, pick.1.graph.module pick.2 = .error e ∧ f = .unlinked pick.1.label pick.2 e := by
  rw [outcomeOf]
  cases pick.1.graph.module pick.2 <;> simp [eq_comm]

theorem mem_picks {pick : Input × FileId} :
    pick ∈ picks options inputs ↔ pick.1 ∈ inputs ∧ pick.2 ∈ options.selected pick.1.graph := by
  obtain ⟨input, file⟩ := pick
  simp only [picks, List.mem_flatMap, List.mem_map, Prod.mk.injEq]
  constructor
  · rintro ⟨input, given, file, selected, rfl, rfl⟩
    exact ⟨given, selected⟩
  · rintro ⟨given, selected⟩
    exact ⟨input, given, file, selected, rfl, rfl⟩

theorem mem_linkedPicks {pick : Input × FileId} :
    pick ∈ linkedPicks options inputs ↔ pick ∈ picks options inputs := by
  simp only [linkedPicks, picks, List.mem_flatMap, List.mem_map, List.mem_eraseDups]

/-- What is stored of the picks: an entry for each of them. -/
abbrev Stored (options : LinkOptions) : List (Input × FileId) → List (FileId × Module) → Prop :=
  List.Forall₂ fun pick e ↦ outcomeOf options pick = .ok e

theorem Stored.keys {ps : List (Input × FileId)} {es : List (FileId × Module)}
    (h : Stored options ps es) : es.map Prod.fst = ps.map Prod.snd := by
  induction h with
  | nil => rfl
  | cons first _ ih => rw [List.map_cons, List.map_cons, ih, (outcomeOf_eq_ok_iff.mp first).1]

/-- What is stored last of a graph that nothing comes after is its module of a file. -/
theorem find?_ofList_of_stored {es : List (FileId × Module)} {m : Module}
    (h : Stored options (linkedPicks options [input]) es)
    (picked : file ∈ options.selected input.graph) (linked : input.graph.module file = .ok m) :
    (Table.ofList es).find? file = some (options.place m) := by
  -- A file has one module in a graph, however often it is picked there.
  have only (e : FileId × Module) (he : e ∈ es) (same : e.1 = file) : e.2 = options.place m := by
    obtain ⟨pick, listed, stored⟩ := exists_of_forall₂ h he
    obtain ⟨given, -⟩ := mem_picks.mp (mem_linkedPicks.mp listed)
    obtain ⟨of, m', linked', placed⟩ := outcomeOf_eq_ok_iff.mp stored
    rw [List.mem_singleton.mp given, ← of, same, linked] at linked'
    rw [placed, Except.ok.inj linked']
  have listed : (input, file) ∈ linkedPicks options [input] :=
    mem_linkedPicks.mpr (mem_picks.mpr ⟨List.mem_singleton_self input, picked⟩)
  obtain ⟨⟨file', m'⟩, he, stored⟩ := exists_of_forall₂ (List.Forall₂.flip h) listed
  obtain ⟨rfl, -⟩ := outcomeOf_eq_ok_iff.mp stored
  refine Table.find?_ofList_of_mem ?_ fun a he' ↦ only (_, a) he' rfl
  rw [← only (_, m') he rfl]
  exact he

theorem find?_ofList_of_not_picked {es : List (FileId × Module)}
    (h : Stored options (linkedPicks options inputs) es)
    (nowhere : ∀ input ∈ inputs, file ∉ options.selected input.graph) :
    (Table.ofList es).find? file = none := by
  refine Table.find?_ofList_of_not_mem fun e he same ↦ ?_
  obtain ⟨pick, listed, stored⟩ := exists_of_forall₂ h he
  obtain ⟨given, selected⟩ := mem_picks.mp (mem_linkedPicks.mp listed)
  rw [← (outcomeOf_eq_ok_iff.mp stored).1, same] at selected
  exact nowhere pick.1 given selected

/-- What is stored of the picks makes up their modules. -/
theorem merges_ofList {es : List (FileId × Module)}
    (h : Stored options (linkedPicks options inputs) es) :
    Merges options inputs (.ofList es) := by
  constructor
  · have files : (linkedPicks options inputs).map Prod.snd =
        inputs.flatMap fun input ↦ (options.selected input.graph).eraseDups := by
      rw [linkedPicks, List.map_flatMap]
      refine List.flatMap_congr fun input _ ↦ ?_
      rw [List.map_map]
      exact List.map_id _
    rw [Table.keys_ofList, h.keys, files, eraseDups_flatMap_eraseDups]
  · rintro before input after file m rfl picked later linked
    have split : linkedPicks options (before ++ input :: after) =
        linkedPicks options before ++
          (linkedPicks options [input] ++ linkedPicks options after) := by
      simp [linkedPicks]
    rw [split] at h
    obtain ⟨es₁, es', rfl, -, h⟩ := exists_append_of_forall₂ h
    obtain ⟨es₂, es₃, rfl, here, afterwards⟩ := exists_append_of_forall₂ h
    -- The later graphs do not have the file, and what the earlier ones have of it is stored before.
    rw [Table.find?_ofList_append, Table.find?_ofList_append,
      find?_ofList_of_not_picked afterwards later, find?_ofList_of_stored here picked linked,
      Option.none_or, Option.some_or]

/-- **If all picks can be linked**, `translate` comes to their modules. -/
theorem exists_merges (linkable : ∀ pick ∈ picks options inputs, Linkable pick) :
    ∃ modules, (translate options inputs).result = .ok modules ∧
      Merges options inputs modules := by
  cases linked : (linkedPicks options inputs).mapM (outcomeOf options) with
  | ok es =>
    refine ⟨.ofList es, ?_, merges_ofList (mapM_eq_ok_iff.mp linked)⟩
    rw [result_translate, linked]
    rfl
  | error f =>
    obtain ⟨before, pick, after, split, failed, -⟩ := mapM_eq_error_iff.mp linked
    obtain ⟨e, unlinked, -⟩ := outcomeOf_eq_error_iff.mp failed
    have listed : pick ∈ linkedPicks options inputs := by simp [split]
    obtain ⟨m, hm⟩ := linkable pick (mem_linkedPicks.mp listed)
    rw [hm] at unlinked
    cases unlinked

/-! ## The first failure -/

/-- Whether a pick cannot be linked. -/
def fails (pick : Input × FileId) : Bool := (pick.1.graph.module pick.2).toOption.isNone

theorem fails_eq_false_iff {pick : Input × FileId} : fails pick = false ↔ Linkable pick := by
  rw [fails, Linkable]
  cases pick.1.graph.module pick.2 <;> simp [Except.toOption]

/-- The first pick that fails does not depend on repetitions within a graph. -/
theorem find?_fails_linkedPicks (options : LinkOptions) (inputs : List Input) :
    (linkedPicks options inputs).find? fails = (picks options inputs).find? fails := by
  rw [linkedPicks, picks, List.find?_flatMap, List.find?_flatMap]
  refine congrArg (List.findSome? · inputs) (funext fun input ↦ ?_)
  rw [List.find?_map, List.find?_map, find?_eraseDups]

theorem find?_fails_eq_some_iff {ps : List (Input × FileId)} {pick : Input × FileId} :
    ps.find? fails = some pick ↔ (∃ e, pick.1.graph.module pick.2 = .error e) ∧
      ∃ before after, ps = before ++ pick :: after ∧ ∀ pick ∈ before, Linkable pick := by
  have failing : fails pick = true ↔ ∃ e, pick.1.graph.module pick.2 = .error e := by
    rw [fails]
    cases pick.1.graph.module pick.2 <;> simp [Except.toOption]
  simp only [List.find?_eq_some_iff_append, failing, Bool.not_eq_true', fails_eq_false_iff]

/-- **If some pick cannot be linked**, `translate` fails with the first one. -/
theorem exists_firstFailure (h : ¬∀ pick ∈ picks options inputs, Linkable pick) :
    ∃ input file e, FirstFailure options inputs input file e ∧
      (translate options inputs).result = .error (.unlinked input.label file e) := by
  obtain ⟨⟨input, file⟩, found⟩ : ∃ pick, (picks options inputs).find? fails = some pick := by
    rw [← Option.isSome_iff_exists, List.find?_isSome]
    simpa [← fails_eq_false_iff] using h
  obtain ⟨⟨e, failed⟩, before, after, split, earlier⟩ := find?_fails_eq_some_iff.mp found
  refine ⟨input, file, e, ⟨before, after, split, earlier, failed⟩, ?_⟩
  -- The same pick is the first failure among those that are linked.
  rw [← find?_fails_linkedPicks, find?_fails_eq_some_iff] at found
  obtain ⟨-, before, after, split, earlier⟩ := found
  have linked : (linkedPicks options inputs).mapM (outcomeOf options) =
      .error (.unlinked input.label file e) := by
    refine mapM_eq_error_iff.mpr ⟨before, _, after, split, ?_, fun pick listed ↦ ?_⟩
    · exact outcomeOf_eq_error_iff.mpr ⟨e, failed, rfl⟩
    · obtain ⟨m, hm⟩ := earlier pick listed
      exact ⟨(pick.2, options.place m), outcomeOf_eq_ok_iff.mpr ⟨rfl, m, hm, rfl⟩⟩
  rw [result_translate, linked]
  rfl

/-! ## Counts -/

/-- The outcomes of all graphs, those of the first graph first. -/
def allOutcomes (options : LinkOptions) (inputs : List Input) :
    List (FileId × Except LinkError Module) :=
  inputs.flatMap fun input ↦ (input.graph.linkEach options).outcomes.entries

/-- How many outcomes there are. -/
def totalOutcomes (options : LinkOptions) (inputs : List Input) : Nat :=
  (allOutcomes options inputs).length

/-- How many outcomes are failures. -/
def failedOutcomes (options : LinkOptions) (inputs : List Input) : Nat :=
  (allOutcomes options inputs).countP (·.2.toOption.isNone)

theorem foldl_add (tally : Tally) (outcomes : List (FileId × Except LinkError Module)) :
    outcomes.foldl Tally.add tally =
      ⟨tally.total + outcomes.length, tally.failed + outcomes.countP (·.2.toOption.isNone)⟩ := by
  induction outcomes generalizing tally with
  | nil => rfl
  | cons outcome outcomes ih =>
    obtain ⟨file, result⟩ := outcome
    rw [List.foldl_cons, ih, List.countP_cons, Tally.add]
    cases result <;> simp [Except.toOption] <;> omega

theorem result_checkStep (options : LinkOptions) (tally : Tally) (input : Input) :
    (link options input >>= fun outcomes ↦ do
        Report.tell (.line input.label :: outcomes.entries.map fun e ↦ .line (outcomeLine e))
        return outcomes.entries.foldl Tally.add tally).result =
      .ok ((input.graph.linkEach options).outcomes.entries.foldl Tally.add tally) := rfl

theorem result_count (options : LinkOptions) (inputs : List Input) :
    (count options inputs).result =
      .ok ⟨totalOutcomes options inputs, failedOutcomes options inputs⟩ := by
  rw [count, Report.result_foldlM]
  simp only [result_checkStep]
  refine List.foldlM_pure.trans (congrArg Except.ok ?_)
  rw [← List.foldl_flatMap, foldl_add, Nat.zero_add, Nat.zero_add]
  rfl

/-- **`check` counts the outcomes of all graphs**, and succeeds if none of them is a failure. -/
theorem result_check (options : LinkOptions) (inputs : List Input) :
    (check options inputs).result =
      if 0 < failedOutcomes options inputs then
        .error (.unlinkedFiles (failedOutcomes options inputs) (totalOutcomes options inputs))
      else .ok () := by
  rw [check, Report.result_bind, result_count, Except.bind]
  split <;> rfl

theorem failedOutcomes_eq_zero_iff :
    failedOutcomes options inputs = 0 ↔ ∀ pick ∈ picks options inputs, Linkable pick := by
  have succeeds (input : Input) (file : FileId) :
      ((input.graph.module file).map options.place).toOption.isNone = false ↔
        Linkable (input, file) := by
    rw [← fails_eq_false_iff, fails]
    cases input.graph.module file <;> rfl
  simp only [failedOutcomes, allOutcomes, List.countP_eq_zero, List.forall_mem_flatMap,
    Graph.outcomes_linkEach, List.forall_mem_map, List.mem_eraseDups, Bool.not_eq_true, succeeds]
  constructor
  · rintro h ⟨input, file⟩ listed
    obtain ⟨given, selected⟩ := mem_picks.mp listed
    exact h input given file selected
  · exact fun h input given file selected ↦ h (input, file) (mem_picks.mpr ⟨given, selected⟩)

end IdlLinker.Command
