import IdlLinker.Proofs.Command.AllOrNothing

/-!
# Refused workers

When files are linked side by side, each graph has workers of its own, and the place where a command
runs may refuse to start them. Then the command ends before the graph is linked. What it has found
out about earlier graphs comes first: a check has counted their outcomes, and a translation may have
failed with one of their files already.

In either case the command fails like any other (`executeWith_refused`): nothing is on the standard
output, and what is seen of the place is as it was. Of the workers it is assumed that asking for
them does not change what is seen, as it is assumed of looking files up. Where one file is linked at
a time nobody asks for workers, and where they are never refused `execute` says what happens.
-/

namespace IdlLinker.Command

variable {σ β : Type} {files : Files (StateM σ)} {seen : σ → β} {workers : Workers (StateM σ)}
  {inputs : Inputs} {graphs : List Input} {refusal : Refusal} {s s' s'' : σ}

/-! ## Asking for workers -/

theorem refusal?_of_le_one {jobs : Nat} (h : jobs ≤ 1) (served count : Nat) :
    workers.refusal? jobs served count = pure none := by
  cases count with
  | zero => rfl
  | succ count => rw [Workers.refusal?, if_pos h]

/-- Workers are refused for one of the graphs, and only if more than one of them is wanted. -/
theorem of_refusal?_eq_some {jobs served count : Nat}
    (h : (workers.refusal? jobs served count).run s = (some refusal, s')) :
    1 < jobs ∧ served ≤ refusal.served ∧ refusal.served < served + count := by
  induction count generalizing served s with
  | zero => cases h
  | succ count ih =>
    rw [Workers.refusal?] at h
    by_cases single : jobs ≤ 1
    · rw [if_pos single] at h
      cases h
    · rw [if_neg single, StateT.run_bind] at h
      rcases asked : (workers jobs).run s with ⟨answer, s₁⟩
      rw [asked] at h
      cases answer with
      | ok granted =>
        obtain ⟨many, least, less⟩ := ih h
        exact ⟨many, by omega, by omega⟩
      | error reason =>
        cases h
        exact ⟨Nat.lt_of_not_le single, Nat.le_refl served, Nat.lt_add_of_pos_right count.succ_pos⟩

theorem keeps_refusal? (quiet : ∀ jobs, Keeps seen (workers jobs)) (jobs served count : Nat) :
    Keeps seen (workers.refusal? jobs served count) := by
  induction count generalizing served with
  | zero => exact .pure none
  | succ count ih =>
    rw [Workers.refusal?]
    split
    · exact .pure none
    · refine (quiet jobs).bind fun answer ↦ ?_
      cases answer with
      | ok granted => exact ih (served + 1)
      | error reason => exact .pure _

/-! ## Commands without workers -/

/-- Where one file is linked at a time, it makes no difference whether workers would be refused. -/
theorem executeWith_eq_execute {i : Invocation} (h : i.inputs.jobs ≤ 1) :
    executeWith files workers i = execute files i := by
  simp only [execute, executeWith, carryOutWith, refusal?_of_le_one h]

theorem run_executeWith (action : Action) (verbose : Bool)
    (loads : Loads files inputs s s' graphs)
    (refused : (workers.refusal? inputs.jobs 0 graphs.length).run s' = (some refusal, s'')) :
    (executeWith files workers ⟨action, inputs, verbose, false⟩).run s =
      (collect (graphs.map .ok) >>= breakOff ⟨action, inputs, verbose, false⟩ refusal, s'') := by
  have gathered : (graphs.map .ok).mapM id = (.ok graphs : Except Failure (List Input)) := by
    refine mapM_eq_ok_iff.mpr ?_
    rw [List.forall₂_map_left_iff]
    exact List.forall₂_same.mpr fun _ _ ↦ rfl
  calc (executeWith files workers ⟨action, inputs, verbose, false⟩).run s
    _ = (carryOutWith files workers ⟨action, inputs, verbose, false⟩ (graphs.map .ok)).run s' := by
      simp only [executeWith, Bool.false_eq_true, if_false, StateT.run_bind]
      rw [loads]
      rfl
    _ = (collect (graphs.map .ok) >>= breakOff ⟨action, inputs, verbose, false⟩ refusal, s'') := by
      rw [carryOutWith, gathered]
      dsimp only
      rw [StateT.run_bind, refused]
      rfl

/-- **Where workers are refused, a command fails silently.** A check says that they are. So does a
translation, unless a file of an earlier graph cannot be linked; then it fails with the first such
file. -/
theorem executeWith_refused (harmless : files.Harmless seen)
    (quiet : ∀ jobs, Keeps seen (workers jobs)) (loads : Loads files inputs s s' graphs)
    (refused : (workers.refusal? inputs.jobs 0 graphs.length).run s' = (some refusal, s''))
    (out? : Option String) (compact verbose : Bool) :
    let served := graphs.take refusal.served
    let checked := (executeWith files workers ⟨.check, inputs, verbose, false⟩).run s
    let translated :=
      (executeWith files workers ⟨.translate out? compact, inputs, verbose, false⟩).run s
    FailsSilently seen s checked (.noWorkers refusal.reason) ∧
      ((∀ pick ∈ picks inputs.options served, Linkable pick) →
        FailsSilently seen s translated (.noWorkers refusal.reason)) ∧
      ((¬∀ pick ∈ picks inputs.options served, Linkable pick) →
        ∃ input file e, FirstFailure inputs.options served input file e ∧
          FailsSilently seen s translated (.unlinked input.label file e)) := by
  intro served checked translated
  have kept : seen s'' = seen s := by
    have asking := keeps_refusal? quiet inputs.jobs 0 graphs.length s'
    have loading := harmless.loadAll inputs s
    rw [refused] at asking
    rw [loads] at loading
    exact asking.trans loading
  refine ⟨?_, fun linkable ↦ ?_, fun unlinkable ↦ ?_⟩
  · simp only [checked, run_executeWith .check verbose loads refused, collect_map_ok]
    refine failsSilently_of_result ?_ kept
    simp only [Report.result_bind, Except.bind, breakOff, result_count, Report.result_fail]
  · obtain ⟨modules, result, -⟩ := exists_merges linkable
    simp only [translated, run_executeWith _ verbose loads refused, collect_map_ok]
    refine failsSilently_of_result ?_ kept
    simp only [Report.result_bind, Except.bind, breakOff, served, result, Report.result_fail]
  · obtain ⟨input, file, e, first, result⟩ := exists_firstFailure unlinkable
    refine ⟨input, file, e, first, ?_⟩
    simp only [translated, run_executeWith _ verbose loads refused, collect_map_ok]
    refine failsSilently_of_result ?_ kept
    simp only [Report.result_bind, Except.bind, breakOff, served, result]

end IdlLinker.Command
