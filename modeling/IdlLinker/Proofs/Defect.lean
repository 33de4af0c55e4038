import IdlLinker.Proofs.Warrant
import Mathlib.Logic.Relation

/-!
# Errors name defects

When a file cannot be linked, the error says which key, declaration or literal is at fault. Here the
error is taken at its word: each kind of error has a *defect* that it speaks of, a place that the
file reaches and that is as the error says, and every error that linking reports speaks of one.

A defect says nothing about how the file was linked. It does not say which of several defects is
reported either; that depends on the order of the requirements.

## Where errors come from

Errors arise in one turn of the walk, and the task of that turn is warranted. So the task itself
holds the key that is missing or the kinds that differ, and its warrant is the path that leads
there. A check is done after the requirements of the type are met, when that type may have been
visited long before; it still holds what the place of the use expects.
-/

open Relation

namespace IdlLinker

open IdlLinker.Graph IdlLinker.Link

/-! ## Defects -/

/-- Declarations of a file can be used: those of the file itself, and of what imports lead to. -/
def Graph.Sees (g : Graph) (f n : FileId) : Prop := n = f ∨ g.LeadsTo f n

/-- **What an error says of a graph and a file.** -/
inductive Defect (g : Graph) (f : FileId) : LinkError → Prop where
  | missingFile {n : FileId} (path : ReflTransGen g.Imports f n)
    (missing : g.files.find? n = none) : Defect g f (.missingFile n)
  | missingType {key : TypeKey} {expected? : Option TypeTag}
    (reached : g.Reaches f (.type key expected?)) (missing : g.types.find? key = none) :
    Defect g f (.missingType key)
  | missingValue {key : ValueKey} (reached : g.Reaches f (.constant key) ∨ g.Reaches f (.value key))
    (missing : g.values.find? key = none) : Defect g f (.missingValue key)
  | typeMismatch {key : TypeKey} {expected : TypeTag} {d : TypeDecl}
    (reached : g.Reaches f (.type key (some expected))) (found : g.types.find? key = some d)
    (differs : expected ≠ d.tag) : Defect g f (.typeMismatch key expected d.tag)
  | valueMismatch {key : ValueKey} {d : Enumerator} (reached : g.Reaches f (.constant key))
    (found : g.values.find? key = some (.enumerator d)) :
    Defect g f (.valueMismatch key .constant .enumMember)
  | missingSource {d : Info} (reached : g.ReachesInfo f d) (missing : d.source? = none) :
    Defect g f (.missingSource d.shortName)
  | notImported {d : Info} {place : SourceInfo} (reached : g.ReachesInfo f d)
    (source : d.source? = some place) (unseen : ¬g.Sees f place.fileName) :
    Defect g f (.notImported d.shortName place.fileName f)
  | unrepresentable {l : Literal} (reached : g.ReachesLiteral f l) (h : l.NonFinite) :
    Defect g f (.unrepresentable l)

namespace Link

variable {g : Graph} {f : FileId} {source : SourceFile} {task : Task} {v : Visits} {e : LinkError}
  {imports : Table FileId (Module.Import Module)}

/-! ## Sources -/

/-- A link uses the declarations of the files that its file sees. -/
theorem scope_reaches_iff (hf : g.files.find? f = some source)
    (closed : transitiveImports g source = .ok imports) {n : FileId} :
    Scope.reaches ⟨f, outline source imports⟩ n = true ↔ g.Sees f n := by
  have names := closure_of_transitiveImports closed
  have found : (imports.find? n).isSome = true ↔ g.LeadsTo f n := by
    rw [Option.isSome_iff_exists, ← Table.mem_keys_iff]
    exact mem_closure_iff hf names
  rw [Scope.reaches, Bool.or_eq_true, decide_eq_true_eq, Graph.Sees]
  exact or_congr_right found

theorem sourceError?_eq_none_iff (hf : g.files.find? f = some source)
    (closed : transitiveImports g source = .ok imports) (name : String)
    {source? : Option SourceInfo} :
    Scope.sourceError? ⟨f, outline source imports⟩ name source? = none ↔
      ∃ place, source? = some place ∧ g.Sees f place.fileName := by
  cases source? with
  | none => simp [Scope.sourceError?]
  | some place =>
    have sees : _ ↔ g.Sees f place.fileName := scope_reaches_iff hf closed
    simp [Scope.sourceError?, sees]

theorem defect_of_sourceError? (hf : g.files.find? f = some source)
    (closed : transitiveImports g source = .ok imports) {d : Info} (reached : g.ReachesInfo f d)
    (h : Scope.sourceError? ⟨f, outline source imports⟩ d.shortName d.source? = some e) :
    Defect g f e := by
  cases hs : d.source? with
  | none =>
    rw [hs] at h
    obtain rfl := Option.some.inj h
    exact .missingSource reached hs
  | some place =>
    rw [hs, Scope.sourceError?] at h
    split at h
    · cases h
    · rename_i unseen
      obtain rfl := Option.some.inj h
      exact .notImported reached hs fun sees ↦ unseen ((scope_reaches_iff hf closed).mpr sees)

/-! ## Turns -/

theorem defect_of_turn_eq_error (hf : g.files.find? f = some source)
    (closed : transitiveImports g source = .ok imports) (ht : task.Warranted g f)
    (h : turn g ⟨f, outline source imports⟩ task v = .error e) : Defect g f e := by
  cases task with
  | meet r =>
    cases r with
    | source name source? =>
      obtain ⟨d, reached, rfl, rfl⟩ := ht.source rfl
      rw [turn] at h
      split at h
      · rename_i e' failed
        obtain rfl := Except.error.inj h
        exact defect_of_sourceError? hf closed reached failed
      · cases h
    | literal l =>
      rw [turn] at h
      split at h
      · cases h
      · rename_i unfit
        obtain rfl := Except.error.inj h
        rw [Bool.not_eq_true, Literal.isRepresentable_eq_false_iff] at unfit
        exact .unrepresentable (ht.literal rfl) unfit
    | type key expected? =>
      rw [turn, meetType] at h
      split at h
      · cases h
      · split at h
        · rename_i missing
          obtain rfl := Except.error.inj h
          exact .missingType (ht.use rfl) missing
        · cases h
    | container enum key => cases h
    | constant key =>
      rw [turn] at h
      split at h
      · rename_i missing
        obtain rfl := Except.error.inj h
        exact .missingValue (Or.inl (ht.use rfl)) missing
      · rename_i d found
        obtain rfl := Except.error.inj h
        exact .valueMismatch (ht.use rfl) found
      · cases h
    | value key =>
      rw [turn] at h
      split at h
      · rename_i missing
        obtain rfl := Except.error.inj h
        exact .missingValue (Or.inr (ht.use rfl)) missing
      · cases h
      · cases h
  | check key expected actual =>
    obtain ⟨reached, d, found, rfl⟩ := ht
    rw [turn] at h
    split at h
    · cases h
    · rename_i differs
      obtain rfl := Except.error.inj h
      exact .typeMismatch reached found (Ne.symm differs)
  | _ => cases h

end Link

/-! ## Linking -/

variable {g : Graph} {f : FileId} {e : LinkError}

/-- **Every error that linking reports speaks of a defect.** -/
theorem defect_of_module_eq_error (h : g.module f = .error e) : Defect g f e := by
  rcases of_module_eq_error h with ⟨missing, rfl⟩ | ⟨source, hf, failed | failed⟩
  · exact .missingFile .refl missing
  · obtain ⟨n, path, missing, rfl⟩ := closure_error hf failed
    exact .missingFile path.to_reflTransGen missing
  · obtain ⟨imports, task, rest, v, closed, run, failed⟩ := failed
    obtain ⟨-, warranted⟩ := warranted_of_run hf run
    exact defect_of_turn_eq_error hf closed (warranted task List.mem_cons_self) failed

/-- A file that lists an enum as a struct. -/
def Graph.misfiled : Graph where
  files := ⟨[("a", { fileName := "a", declared? := some { structs := ["E"] } })]⟩
  types := ⟨[("E", .enum { info := { source? := some { fileName := "a" } } })]⟩

/-- The error for an enum in the place of a struct holds both kinds. -/
theorem defect_misfiled :
    Graph.misfiled.module "a" = .error (.typeMismatch "E" .struct .enum) ∧
      Defect Graph.misfiled "a" (.typeMismatch "E" .struct .enum) := by
  have failed : Graph.misfiled.module "a" = .error (.typeMismatch "E" .struct .enum) := by cbv
  exact ⟨failed, defect_of_module_eq_error failed⟩

end IdlLinker
