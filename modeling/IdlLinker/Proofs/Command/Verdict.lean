import IdlLinker.Proofs.Command.AllOrNothing

/-!
# The verdict of a check

`check` and `translate` do not go the same way: the one counts through all files of all graphs, the
other ends with the first file that fails. But both load the same graphs, and the one has something
to count exactly if the other has something to end with (`failedOutcomes_eq_zero_iff`). So they
agree on whether a command line succeeds (`execute_check_agrees`), up to where modules are written,
which `check` does not try.

How many files are linked side by side makes no difference to either.

The comparison is made on reports and not on what is printed, where the two commands have nothing in
common. `FailsOnly` singles out the failures of the last step, in which only `translate` writes: a
command line on which nothing else goes wrong succeeds exactly if the other one does.
-/

namespace IdlLinker.Command

/-! ## What succeeds -/

theorem exit_outcome_eq_zero_iff (filter : Log.Filter) (r : Report String) :
    (r.outcome filter).exit = 0 ↔ ∃ text, r.result = .ok text := by
  rw [Report.outcome]
  cases r.result <;> simp

section Loaded

variable {options : LinkOptions} {graphs : List Input} {compact : Bool}

theorem result_checkLoaded :
    (checkLoaded options (graphs.map .ok)).result =
      if 0 < failedOutcomes options graphs then
        .error (.unlinkedFiles (failedOutcomes options graphs) (totalOutcomes options graphs))
      else .ok "" := by
  rw [checkLoaded, collect_map_ok, Report.result_bind, Except.bind, Report.result_bind,
    result_check]
  split <;> rfl

theorem checkLoaded_succeeds_iff :
    (∃ text, (checkLoaded options (graphs.map .ok)).result = .ok text) ↔
      ∀ pick ∈ picks options graphs, Linkable pick := by
  rw [← failedOutcomes_eq_zero_iff, result_checkLoaded]
  split <;> simp <;> omega

theorem translateLoaded_succeeds_iff :
    (∃ text, (translateLoaded options compact (graphs.map .ok)).result = .ok text) ↔
      ∀ pick ∈ picks options graphs, Linkable pick := by
  rw [result_translateLoaded]
  constructor
  · rintro ⟨text, succeeded⟩
    by_contra unlinkable
    obtain ⟨input, file, e, -, failed⟩ := exists_firstFailure unlinkable
    rw [failed] at succeeded
    cases succeeded
  · intro linkable
    obtain ⟨modules, translated, -⟩ := exists_merges linkable
    exact ⟨documentText compact modules, by rw [translated]; rfl⟩

end Loaded

/-! ## Failing to write -/

section Steps

variable {σ α β : Type} {P : Failure → Prop}

/-- A step fails only in certain ways. -/
def FailsOnly (P : Failure → Prop) (x : ExceptT Failure (StateM σ) α) : Prop :=
  ∀ s f, (x.run.run s).1 = .error f → P f

namespace FailsOnly

theorem pure (a : α) : FailsOnly P (σ := σ) (pure a) := nofun

theorem lift (x : StateM σ α) : FailsOnly P (liftM x : ExceptT Failure (StateM σ) α) := nofun

theorem throw {f : Failure} (h : P f) :
    FailsOnly P (throw f : ExceptT Failure (StateM σ) α) := by
  rintro s f' ⟨⟩
  exact h

theorem bind {x : ExceptT Failure (StateM σ) α} {next : α → ExceptT Failure (StateM σ) β}
    (hx : FailsOnly P x) (hnext : ∀ a, FailsOnly P (next a)) : FailsOnly P (x >>= next) := by
  intro s f failed
  rw [ExceptT.run_bind, StateT.run_bind] at failed
  rcases ran : x.run.run s with ⟨result, s'⟩
  rw [ran] at failed
  cases result with
  | ok a => exact hnext a s' f failed
  | error e =>
    obtain rfl : e = f := Except.error.inj failed
    exact hx s e (congrArg Prod.fst ran)

theorem attempt {ε : Type} {x : StateM σ (Except ε α)}
    {next : Except ε α → ExceptT Failure (StateM σ) β} (fails : ∀ e, FailsOnly P (next (.error e)))
    (succeeds : ∀ a, FailsOnly P (next (.ok a))) : FailsOnly P (liftM x >>= next) := by
  refine (FailsOnly.lift x).bind fun outcome ↦ ?_
  cases outcome with
  | error e => exact fails e
  | ok a => exact succeeds a

end FailsOnly

end Steps

/-- What only the writing of a document fails with. -/
def Failure.IsOutput : Failure → Prop
  | .notMade _ _ | .unwritten _ _ => True
  | _ => False

section Commands

variable {σ : Type} {files : Files (StateM σ)} {out? : Option String}

theorem failsOnly_deliver (files : Files (StateM σ)) (path text : String) :
    FailsOnly Failure.IsOutput (deliver files path text) := by
  rw [deliver]
  split
  · refine .attempt (fun _ ↦ (FailsOnly.throw trivial).bind fun _ ↦ ?_) fun _ ↦ ?_
    · exact .attempt (fun _ ↦ .throw trivial) fun _ ↦ .pure ()
    · exact .attempt (fun _ ↦ .throw trivial) fun _ ↦ .pure ()
  · exact .attempt (fun _ ↦ .throw trivial) fun _ ↦ .pure ()

/-- A command that ends with a document succeeds if there is one and it can be written. -/
theorem finish_succeeds_iff {r : Report String} {s : σ}
    (written : ∀ f, ((finish files out? r).run s).1.result = .error f → ¬f.IsOutput) :
    (∃ text, ((finish files out? r).run s).1.result = .ok text) ↔ ∃ text, r.result = .ok text := by
  cases result : r.result with
  | error f => simp [run_finish_of_error result]
  | ok text =>
    refine iff_of_true ?_ ⟨text, rfl⟩
    have emits : Emits files out? text s ((finish files out? r).run s) := emits_finish result
    cases out? with
    | none => exact ⟨_, emits.1⟩
    | some path =>
      obtain ⟨delivered, ran, ended⟩ := emits
      cases delivered with
      | ok => exact ⟨_, ended⟩
      | error f =>
        exact absurd (failsOnly_deliver files path text s f (congrArg Prod.fst ran))
          (written f ended)

variable {inputs : Inputs} {compact verbose : Bool} {graphs : List Input} {s s' : σ}

theorem check_succeeds_iff (loads : Loads files inputs s s' graphs) :
    (∃ text, ((execute files ⟨.check, inputs, verbose, false⟩).run s).1.result = .ok text) ↔
      ∀ pick ∈ picks inputs.options graphs, Linkable pick := by
  rw [run_execute_check _ loads]
  exact checkLoaded_succeeds_iff

theorem translate_succeeds_iff (loads : Loads files inputs s s' graphs)
    (written : ∀ f, ((execute files
      ⟨.translate out? compact, inputs, verbose, false⟩).run s).1.result = .error f → ¬f.IsOutput) :
    (∃ text, ((execute files
        ⟨.translate out? compact, inputs, verbose, false⟩).run s).1.result = .ok text) ↔
      ∀ pick ∈ picks inputs.options graphs, Linkable pick := by
  rw [run_execute_translate loads] at written ⊢
  rw [finish_succeeds_iff written, translateLoaded_succeeds_iff]

/-! ## Files side by side

How many files are linked side by side makes no difference to what is loaded, and none to the
outcomes. -/

theorem loads_jobs_iff (jobs : Nat) :
    Loads files { inputs with jobs } s s' graphs ↔ Loads files inputs s s' graphs := Iff.rfl

theorem failsToLoad_jobs_iff (jobs : Nat) {f : Failure} :
    FailsToLoad files { inputs with jobs } s s' graphs f ↔ FailsToLoad files inputs s s' graphs f :=
  Iff.rfl

theorem allOutcomes_jobs (inputs : Inputs) (jobs : Nat) (graphs : List Input) :
    allOutcomes { inputs with jobs }.options graphs = allOutcomes inputs.options graphs := by
  simp only [allOutcomes, Graph.outcomes_linkEach]
  rfl

theorem failedOutcomes_jobs (inputs : Inputs) (jobs : Nat) (graphs : List Input) :
    failedOutcomes { inputs with jobs }.options graphs = failedOutcomes inputs.options graphs := by
  rw [failedOutcomes, allOutcomes_jobs, failedOutcomes]

theorem totalOutcomes_jobs (inputs : Inputs) (jobs : Nat) (graphs : List Input) :
    totalOutcomes { inputs with jobs }.options graphs = totalOutcomes inputs.options graphs := by
  rw [totalOutcomes, allOutcomes_jobs, totalOutcomes]

/-! ## The verdict -/

/-- **A check and a translation agree** on whether a command line succeeds, if nothing goes wrong
with writing. When a check fails after all graphs were loaded, it has counted the outcomes of all
files of all graphs, and those that are failures; the counts stand in its last line. -/
theorem execute_check_agrees (files : Files (StateM σ)) (inputs : Inputs) (jobs jobs' : Nat)
    (out? : Option String) (compact verbose verbose' : Bool) (s : σ)
    (written : ∀ f, ((execute files
      ⟨.translate out? compact, { inputs with jobs := jobs' }, verbose', false⟩).run s).1.result =
        .error f → ¬f.IsOutput) :
    let checked := ((execute files ⟨.check, { inputs with jobs }, verbose, false⟩).run s).1
    let translated := ((execute files
      ⟨.translate out? compact, { inputs with jobs := jobs' }, verbose', false⟩).run s).1
    (∀ filter filter', (checked.outcome filter).exit = 0 ↔ (translated.outcome filter').exit = 0) ∧
      ∀ graphs s', Loads files inputs s s' graphs → ∀ f, checked.result = .error f →
        let failed := failedOutcomes inputs.options graphs
        let total := totalOutcomes inputs.options graphs
        f = .unlinkedFiles failed total ∧ ∀ filter, ∃ said, (checked.outcome filter).stderr =
          lines (said ++
            ["error: " ++ (toString failed ++ " of " ++ toString total ++
              " files failed to translate")]) := by
  intro checked translated
  constructor
  · intro filter filter'
    rw [exit_outcome_eq_zero_iff, exit_outcome_eq_zero_iff]
    rcases loads_or_failsToLoad files inputs s with ⟨graphs, s', loads⟩ | ⟨before, f, s', fails⟩
    · calc (∃ text, checked.result = .ok text)
        _ ↔ ∀ pick ∈ picks inputs.options graphs, Linkable pick :=
          check_succeeds_iff ((loads_jobs_iff jobs).mpr loads)
        _ ↔ ∃ text, translated.result = .ok text :=
          (translate_succeeds_iff ((loads_jobs_iff jobs').mpr loads) written).symm
    -- Neither command gets to link anything.
    · have checks := run_execute_of_failsToLoad .check verbose
        ((failsToLoad_jobs_iff jobs).mpr fails)
      have translates := run_execute_of_failsToLoad (.translate out? compact) verbose'
        ((failsToLoad_jobs_iff jobs').mpr fails)
      simp [checked, translated, checks, translates]
  · intro graphs s' loads f result failed total
    have checks := run_execute_check verbose ((loads_jobs_iff jobs).mpr loads)
    have counted : checked.result = .error (.unlinkedFiles failed total) := by
      simp only [checked, checks, result_checkLoaded, failedOutcomes_jobs, totalOutcomes_jobs]
        at result ⊢
      split at result
      · rename_i someFailed
        rw [if_pos someFailed]
      · cases result
    refine ⟨Except.error.inj (result.symm.trans counted), fun filter ↦ ?_⟩
    rw [Report.outcome, counted]
    exact ⟨_, rfl⟩

end Commands

/-! ## A file that is missing -/

/-- The one file that is picked is counted, however many are linked side by side. -/
theorem execute_check_agrees_stray :
    let checked := ((execute Workspace.files
      ⟨.check, { Inputs.stray with jobs := 1 }, false, false⟩).run bare).1
    let translated := ((execute Workspace.files
      ⟨.translate none true, { Inputs.stray with jobs := 4 }, true, false⟩).run bare).1
    (∀ filter filter', (checked.outcome filter).exit = 0 ↔ (translated.outcome filter').exit = 0) ∧
      ∀ f, checked.result = .error f → f = .unlinkedFiles 1 1 := by
  have failed : ((execute Workspace.files
      ⟨.translate none true, { Inputs.stray with jobs := 4 }, true, false⟩).run bare).1.result =
        .error (.unlinked "graph" "a" (.missingFile "a")) := by
    rw [run_execute_translate ((loads_jobs_iff 4).mpr loads_stray)]
    rfl
  obtain ⟨agree, counts⟩ :=
    execute_check_agrees Workspace.files .stray 1 4 none true false true bare fun f h ↦ by
      rw [failed] at h
      cases h
      exact id
  exact ⟨agree, fun f h ↦ (counts _ _ loads_stray f h).1⟩

end IdlLinker.Command
