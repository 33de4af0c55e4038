import IdlLinker.Proofs.Command.Merging
import IdlLinker.Proofs.Command.Untouched

/-!
# All or nothing

`translate` comes to all modules or to none (`execute_translate`). If all inputs can be loaded and
all picks can be linked, it emits one document with their modules. If some pick cannot be linked, it
fails with the first one, and if some input cannot be loaded, it fails with that one and nothing has
been linked. A command that fails leaves nothing on the standard output and whatever it was to write
as it was.

Of the place that has the files it is assumed only that looking files up and reading them leaves
alone what is seen of it.
-/

namespace IdlLinker.Command

/-! ## Collecting what was loaded -/

/-- Steps may be grouped in any way. -/
instance : LawfulMonad Report := by
  refine LawfulMonad.mk' Report (fun r ↦ ?_) (fun a next ↦ ?_) fun r next next' ↦ ?_
  · obtain ⟨said, result⟩ := r
    cases result with
    | error f => rfl
    | ok a => exact congrArg (Report.mk · _) (List.append_nil said)
  · rfl
  · obtain ⟨said, result⟩ := r
    cases result with
    | error f => rfl
    | ok a =>
      simp only [bind, Report.andThen]
      cases (next a).result with
      | error f => rfl
      | ok b => exact congrArg (Report.mk · _) (List.append_assoc ..)

theorem collect_cons_ok (input : Input) (loaded : List (Except Failure Input)) :
    collect (.ok input :: loaded) =
      ⟨.event (loadEvent input) :: (collect loaded).notices,
        (collect loaded).result.map (input :: ·)⟩ := by
  rw [collect, collect, List.mapM_cons]
  generalize (List.mapM _ loaded : Report (List Input)) = others
  obtain ⟨said, result⟩ := others
  cases result with
  | error f => rfl
  | ok inputs => exact congrArg (fun said ↦ Report.mk (_ :: said) _) (List.append_nil said)

/-- Graphs that could be loaded are collected, and it is said of each that it was. -/
theorem collect_map_ok (graphs : List Input) :
    collect (graphs.map .ok) = ⟨graphs.map fun input ↦ .event (loadEvent input), .ok graphs⟩ := by
  induction graphs with
  | nil => rfl
  | cons input graphs ih => rw [List.map_cons, collect_cons_ok, ih]; rfl

theorem collect_append_error (graphs : List Input) (f : Failure)
    (rest : List (Except Failure Input)) :
    collect (graphs.map .ok ++ .error f :: rest) =
      ⟨graphs.map fun input ↦ .event (loadEvent input), .error f⟩ := by
  induction graphs with
  | nil => rw [List.map_nil, List.nil_append, collect, List.mapM_cons]; rfl
  | cons input graphs ih => rw [List.map_cons, List.cons_append, collect_cons_ok, ih]; rfl

/-! ## Loading -/

/-- Of results, all are right or there is a first that is not. -/
theorem all_or_first_error {ε α : Type} (results : List (Except ε α)) :
    (∃ as : List α, results = as.map .ok) ∨
      ∃ (as : List α) (e : ε) (rest : List (Except ε α)),
        results = as.map .ok ++ .error e :: rest := by
  induction results with
  | nil => exact .inl ⟨[], rfl⟩
  | cons first results ih =>
    cases first with
    | error e => exact .inr ⟨[], e, results, rfl⟩
    | ok a =>
      rcases ih with ⟨as, rfl⟩ | ⟨as, e, rest, rfl⟩
      · exact .inl ⟨a :: as, rfl⟩
      · exact .inr ⟨a :: as, e, rest, rfl⟩

section Loading

variable {σ β : Type} (files : Files (StateM σ)) (inputs : Inputs) (s s' : σ)

/-- All inputs can be loaded, and these are their graphs. -/
def Loads (graphs : List Input) : Prop :=
  (loadAll files inputs).run.run s = (.ok (graphs.map .ok), s')

/-- Some input cannot be loaded: its graph is not found, or does not come out right. Those before it
can be. -/
def FailsToLoad (before : List Input) (f : Failure) : Prop :=
  ((loadAll files inputs).run.run s = (.error f, s') ∧ before = []) ∨
    ∃ after, (loadAll files inputs).run.run s = (.ok (before.map .ok ++ .error f :: after), s')

theorem loads_or_failsToLoad :
    (∃ graphs s', Loads files inputs s s' graphs) ∨
      ∃ before f s', FailsToLoad files inputs s s' before f := by
  rcases h : (loadAll files inputs).run.run s with ⟨found, s'⟩
  cases found with
  | error f => exact .inr ⟨[], f, s', .inl ⟨h, rfl⟩⟩
  | ok loaded =>
    rcases all_or_first_error loaded with ⟨graphs, rfl⟩ | ⟨before, f, after, rfl⟩
    · exact .inl ⟨graphs, s', h⟩
    · exact .inr ⟨before, f, s', .inr ⟨after, h⟩⟩

end Loading

/-! ## Workers -/

section Granted

variable {σ : Type} (files : Files (StateM σ))

theorem refusal?_granted (jobs served graphs : Nat) :
    Workers.refusal? (fun _ ↦ (return .ok () : StateM σ (Except String Unit))) jobs served graphs =
      pure none := by
  induction graphs generalizing served with
  | zero => rfl
  | succ graphs ih =>
    rw [Workers.refusal?]
    split
    · rfl
    · exact (pure_bind _ _).trans (ih (served + 1))

/-- Where workers are never refused, a command is carried out when all that can be loaded is. -/
theorem execute_eq (i : Invocation) :
    execute files i = (do
      if i.noOp then return ⟨[.line i.describe], .ok ""⟩
      match ← (loadAll files i.inputs).run with
      | .error f => return .fail f
      | .ok loaded => carryOut files i loaded) := by
  rw [execute, executeWith]
  split
  · rfl
  · refine congrArg ((loadAll files i.inputs).run >>= ·) (funext fun found ↦ ?_)
    cases found with
    | error f => rfl
    | ok loaded =>
      dsimp only
      rw [carryOutWith]
      split
      · rfl
      · rw [refusal?_granted, pure_bind]

end Granted

/-! ## What a command leaves behind -/

section Commands

variable {σ β : Type} {files : Files (StateM σ)} {seen : σ → β}

/-- The document of modules in writing. -/
def documentText (compact : Bool) (modules : Table FileId Module) : String :=
  let document := Module.tableToJson modules
  if compact then document.compact else document.pretty

/-- A command that fails without a trace: its last line says why, there is nothing on the standard
output, and what is seen stays as it was. -/
structure FailsSilently (seen : σ → β) (s : σ) (ran : Report String × σ) (f : Failure) : Prop where
  result : ran.1.result = .error f
  exit : ∀ filter, (ran.1.outcome filter).exit = 1
  stdout : ∀ filter, (ran.1.outcome filter).stdout = ""
  stderr : ∀ filter, ∃ said, (ran.1.outcome filter).stderr = lines (said ++ [f.line])
  untouched : seen ran.2 = seen s

/-- A command emits a text: on the standard output, which leaves the files alone, or into the file
that is named, if that succeeds. -/
def Emits (files : Files (StateM σ)) (out? : Option String) (text : String) (s : σ)
    (ran : Report String × σ) : Prop :=
  match out? with
  | none => ran.1.result = .ok (text ++ "\n") ∧ ran.2 = s
  | some path => ∃ delivered, (deliver files path text).run.run s = (delivered, ran.2) ∧
      ran.1.result = delivered.map fun _ ↦ ""

theorem failsSilently_of_result {s : σ} {ran : Report String × σ} {f : Failure}
    (result : ran.1.result = .error f) (untouched : seen ran.2 = seen s) :
    FailsSilently seen s ran f := by
  have left (filter : Log.Filter) :
      ran.1.outcome filter =
        ⟨1, "", lines (ran.1.notices.filterMap (·.text? filter) ++ [f.line])⟩ := by
    rw [Report.outcome, result]
  exact ⟨result, fun filter ↦ by rw [left], fun filter ↦ by rw [left],
    fun filter ↦ ⟨_, by rw [left]⟩, untouched⟩

/-! ## Carrying commands out -/

variable {inputs : Inputs} {out? : Option String} {compact verbose : Bool} {s s' : σ}

/-- Once all graphs are loaded, `translate` comes to what linking them comes to. -/
theorem run_execute_translate {graphs : List Input} (loads : Loads files inputs s s' graphs) :
    (execute files ⟨.translate out? compact, inputs, verbose, false⟩).run s =
      (finish files out? (translateLoaded inputs.options compact (graphs.map .ok))).run s' := by
  simp only [execute_eq, Bool.false_eq_true, if_false, StateT.run_bind]
  rw [loads]
  rfl

theorem run_execute_check (verbose : Bool) {graphs : List Input}
    (loads : Loads files inputs s s' graphs) :
    (execute files ⟨.check, inputs, verbose, false⟩).run s =
      (checkLoaded inputs.options (graphs.map .ok), s') := by
  simp only [execute_eq, Bool.false_eq_true, if_false, StateT.run_bind]
  rw [loads]
  rfl

/-- A graph that cannot be loaded is all that is said of any command. -/
theorem run_execute_of_failsToLoad (action : Action) (verbose : Bool) {before : List Input}
    {f : Failure} (fails : FailsToLoad files inputs s s' before f) :
    (execute files ⟨action, inputs, verbose, false⟩).run s =
      (⟨before.map fun input ↦ .event (loadEvent input), .error f⟩, s') := by
  simp only [execute_eq, Bool.false_eq_true, if_false, StateT.run_bind]
  rcases fails with ⟨fails, rfl⟩ | ⟨after, fails⟩
  · rw [fails]
    rfl
  · rw [fails]
    cases action with
    | check =>
      change (checkLoaded inputs.options (before.map .ok ++ .error f :: after), s') = _
      rw [checkLoaded, collect_append_error]
      rfl
    | translate out? compact =>
      change (finish files out? (translateLoaded inputs.options compact
        (before.map .ok ++ .error f :: after))).run s' = _
      rw [translateLoaded, collect_append_error]
      cases out? <;> rfl

theorem result_translateLoaded (options : LinkOptions) (graphs : List Input) :
    (translateLoaded options compact (graphs.map .ok)).result =
      (translate options graphs).result.map (documentText compact) := by
  rw [translateLoaded, collect_map_ok, Report.result_bind, Except.bind, Report.result_bind]
  cases (translate options graphs).result <;> rfl

theorem emits_finish {text : String} {r : Report String} (result : r.result = .ok text) :
    Emits files out? text s ((finish files out? r).run s) := by
  obtain ⟨said, result'⟩ := r
  cases result
  cases out? with
  | none => exact ⟨rfl, rfl⟩
  | some path => exact ⟨_, rfl, rfl⟩

/-- A failure ends the command, wherever a document was to go. -/
theorem run_finish_of_error {f : Failure} {r : Report String} (result : r.result = .error f) :
    ((finish files out? r).run s) = (⟨r.notices, .error f⟩, s) := by
  obtain ⟨said, result'⟩ := r
  cases result
  cases out? <;> rfl

end Commands

/-! ## A file that is missing -/

/-- A directory with a graph that has no files, and something else. -/
def bare : Workspace where
  directory := ⟨⟨[("graph", .file "{}"), ("modules", .file "kept")]⟩⟩

/-- What asks for a file that the graph does not have. -/
def Inputs.stray : Inputs where
  patterns := ["graph"]
  files := ["a"]

theorem loads_stray : Loads Workspace.files .stray bare bare [⟨"graph", {}⟩] := by
  with_unfolding_all rfl

end IdlLinker.Command
