import IdlLinker.Command.Run
import IdlLinker.Directory
import Mathlib.Data.List.Basic

/-!
# Looking is not touching

Files are looked up and read before anything is done with them. Whatever is seen of a place that has
files, if it stays as it is when files are looked up, listed and read (`Files.Harmless`), it stays
as it is while graphs are found and loaded (`Files.Harmless.loadAll`).

In a `Workspace` that is the directory: reading the standard input uses it up, but not the files.

The statement is made for any view of the state, and not for the state itself, since a place may
keep account of what it was asked for. A step that keeps the view keeps it under every bind, so a
command inherits it from the few steps that touch the place (`Keeps.bind`).
-/

namespace IdlLinker

variable {σ α β γ : Type}

/-! ## Steps that leave something as it is -/

/-- What is seen of the state stays as it is. -/
def Keeps (seen : σ → β) (x : StateM σ α) : Prop := ∀ s, seen (x.run s).2 = seen s

section Traversal

variable {m : Type → Type} [Monad m] [LawfulMonad m] {P : ∀ {α : Type}, m α → Prop}

/-- What holds of steps and of what is put together from them holds of a traversal. -/
theorem mapM_of_closed (pure : ∀ {α : Type} (a : α), P (pure a))
    (bind : ∀ {α β : Type} {x : m α} {f : α → m β}, P x → (∀ a, P (f a)) → P (x >>= f))
    {f : α → m β} (each : ∀ a, P (f a)) (as : List α) : P (as.mapM f) := by
  induction as with
  | nil =>
    rw [List.mapM_nil]
    exact pure []
  | cons a as ih =>
    rw [List.mapM_cons]
    exact bind (each a) fun b ↦ bind ih fun bs ↦ pure (b :: bs)

end Traversal

namespace Keeps

variable {seen : σ → β}

theorem pure (a : α) : Keeps seen (pure a) := fun _ ↦ rfl

theorem bind {x : StateM σ α} {f : α → StateM σ γ} (hx : Keeps seen x)
    (hf : ∀ a, Keeps seen (f a)) : Keeps seen (x >>= f) := fun s ↦
  (hf (x.run s).1 (x.run s).2).trans (hx s)

theorem mapM {f : α → StateM σ γ} (each : ∀ a, Keeps seen (f a)) (as : List α) :
    Keeps seen (as.mapM f) :=
  mapM_of_closed (P := Keeps seen) pure bind each as

theorem bindExcept {ε : Type} {x : ExceptT ε (StateM σ) α} {f : α → ExceptT ε (StateM σ) γ}
    (hx : Keeps seen x.run) (hf : ∀ a, Keeps seen (f a).run) : Keeps seen (x >>= f).run := by
  rw [ExceptT.run_bind]
  refine bind hx fun result ↦ ?_
  cases result with
  | ok a => exact hf a
  | error e => exact pure _

theorem mapMExcept {ε : Type} {f : α → ExceptT ε (StateM σ) γ} (each : ∀ a, Keeps seen (f a).run)
    (as : List α) : Keeps seen (as.mapM f).run :=
  mapM_of_closed (P := fun x : ExceptT ε (StateM σ) _ ↦ Keeps seen x.run)
    (fun a ↦ pure (Except.ok a)) bindExcept each as

end Keeps

/-! ## Looking files up -/

/-- What is seen of a place stays as it is when its files are looked up, listed and read, and when
its standard input is. -/
structure Files.Harmless (files : Files (StateM σ)) (seen : σ → β) : Prop where
  kind? : ∀ path, Keeps seen (files.kind? path)
  list : ∀ path, Keeps seen (files.list path)
  read : ∀ path, Keeps seen (files.read path)
  input : Keeps seen files.input

namespace Files.Harmless

variable {files : Files (StateM σ)} {seen : σ → β} (harmless : files.Harmless seen)

include harmless

theorem isThere (path : String) : Keeps seen (files.isThere path) :=
  (harmless.kind? path).bind fun _ ↦ .pure _

theorem isFolder (path : String) : Keeps seen (files.isFolder path) :=
  (harmless.kind? path).bind fun _ ↦ .pure _

theorem search (onlyFolders : Bool) (depth : Nat) (components : List Glob.Pattern)
    (path : String) : Keeps seen (Glob.search files onlyFolders depth components path) := by
  induction depth, components, path using Glob.search.induct files onlyFolders with
  | case1 depth path =>
    rw [Glob.search]
    refine (harmless.isFolder path).bind fun there ↦ ?_
    split <;> exact .pure _
  | case2 depth p rest path name literal point ih =>
    simp only [Glob.search, literal, if_pos point]
    refine (harmless.isFolder path).bind fun there ↦ ?_
    split
    · exact ih
    · exact .pure _
  | case3 depth p rest path name literal point ih =>
    simp only [Glob.search, literal, if_neg point]
    refine (harmless.isThere _).bind fun there ↦ ?_
    split
    · exact ih
    · exact .pure _
  | case4 depth p rest path wild special single next below =>
    rw [Glob.search.eq_def]
    simp only [wild]
    refine (harmless.isFolder path).bind fun there ↦ ?_
    split
    · exact .pure _
    refine (harmless.list path).bind fun names ↦ ?_
    cases names with
    | error fault => exact .pure _
    | ok names =>
      refine (Keeps.mapM special _).bind fun specials ↦ ?_
      refine (Keeps.mapM (fun name ↦ ?_) _).bind fun ordinary ↦ .pure _
      split
      · split
        · exact single name
        · exact .pure _
      · refine (harmless.isFolder _).bind fun isFolder ↦ ?_
        cases rest with
        | nil =>
          cases depth with
          | zero => exact (Keeps.pure []).bind fun _ ↦ .pure _
          | succ depth =>
            cases isFolder with
            | false => exact (Keeps.pure []).bind fun _ ↦ .pure _
            | true => exact (below name).bind fun _ ↦ .pure _
        | cons p' rest =>
          -- What is found under a name comes before what is found below it.
          have joined (found : List Glob.Found) : Keeps seen (do
              if p'.admits name then
                return (← Glob.search files onlyFolders depth rest (Glob.child path name)) ++ found
              else return found) := by
            split
            · exact (next name).bind fun _ ↦ .pure _
            · exact .pure _
          cases depth with
          | zero => exact (Keeps.pure []).bind joined
          | succ depth =>
            cases isFolder with
            | false => exact (Keeps.pure []).bind joined
            | true => exact (below name).bind joined

/-! ## Finding and loading graphs -/

theorem sourcesOf (input : String) : Keeps seen (Command.sourcesOf files input).run := by
  unfold Command.sourcesOf
  split
  · exact .pure _
  split
  · exact .pure _
  cases Glob.PathPattern.ofText input with
  | error fault => exact .pure _
  | ok pattern =>
    refine Keeps.bindExcept ((harmless.search _ _ _ _).bind fun _ ↦ .pure _) fun found ↦ ?_
    split <;> exact .pure _

theorem load (source : Command.Source) : Keeps seen (Command.load files source).run := by
  cases source with
  | standardInput =>
    refine Keeps.bindExcept (harmless.input.bind fun _ ↦ .pure _) fun input ↦ ?_
    split <;> exact .pure _
  | file path =>
    refine Keeps.bindExcept ((harmless.read path).bind fun _ ↦ .pure _) fun text ↦ ?_
    cases text with
    | error fault => exact .pure _
    | ok text =>
      dsimp only
      split <;> exact .pure _

/-- **Loading touches nothing**, whether it succeeds or not. -/
theorem loadAll (inputs : Command.Inputs) : Keeps seen (Command.loadAll files inputs).run := by
  rw [Command.loadAll]
  refine Keeps.bindExcept (Keeps.mapMExcept harmless.sourcesOf _) fun sources ↦ ?_
  exact Keeps.mapMExcept (fun source ↦ (harmless.load source).bind fun _ ↦ .pure _) _

end Files.Harmless

end IdlLinker
