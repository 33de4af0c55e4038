import IdlLinker.Link.Error
import IdlLinker.Module.Basic
import IdlLinker.Path

/-!
# Imports

The *import closure* of a file holds every file that imports lead to, each once: direct imports
come first, in source order, then the imports of those, and so on level by level. The file itself
belongs to its closure exactly when it lies on a cycle of imports.

A queue holds the names still to be looked at; a name may wait in it more than once, and counts
only the first time. Each turn either finds a file that was not found before, of which there are
finitely many, or shortens the queue.
-/

namespace IdlLinker

open IdlLinker.Graph

namespace Link

/-! ## Descriptions of files -/

/-- Attributes as text; a repeated key keeps its first position and its last value. -/
def attributesOf (attributes? : Option (List Attribute)) : Attributes :=
  .ofList ((attributes?.getD []).map fun a ↦ (a.key, a.value.attributeText))

/-- The module that says what a file is, and nothing of what it declares. -/
def metadata (file : SourceFile) : Module where
  name := (Path.fileName? file.fileName).getD file.fileName
  specifiedName := file.specifiedName
  path := file.fileName
  moduleNamespace := file.moduleNamespace
  attributes := attributesOf file.attributes?

/-- The description of an imported file. -/
def importOf (file : SourceFile) : Module.Import Module where
  moduleName := (metadata file).name
  moduleNamespace := (metadata file).moduleNamespace
  module := metadata file

/-- The description of the file under a name. -/
def import? (g : Graph) (name : FileId) : Except LinkError (Module.Import Module) :=
  match g.files.find? name with
  | none => .error (.missingFile name)
  | some file => .ok (importOf file)

/-! ## The closure -/

/-- The keys of a table that are not among the given ones. -/
def unseen {α : Type} (t : Table String α) (seen : List String) : List String :=
  t.keys.filter (· ∉ seen)

theorem unseen_append_lt {α : Type} {t : Table String α} {seen : List String} {name : String}
    {a : α} (found : t.find? name = some a) (new : name ∉ seen) :
    (unseen t (seen ++ [name])).length < (unseen t seen).length := by
  have present : name ∈ t.keys := by
    by_cases h : name ∈ t.keys
    · exact h
    · rw [Table.find?_eq_none_iff.2 h] at found
      cases found
  have split : unseen t (seen ++ [name]) = (unseen t seen).filter (· ≠ name) := by
    simp only [unseen, List.filter_filter]
    apply List.filter_congr
    intro k _
    by_cases h : k ∈ seen <;> by_cases h' : k = name <;> simp [h, h']
  have waiting : name ∈ unseen t seen := by simp [unseen, present, new]
  rw [split]
  refine Nat.lt_of_le_of_ne (List.length_filter_le _ _) fun same ↦ ?_
  have all := List.length_filter_eq_length_iff.1 same name waiting
  simp at all

/-- Looks at the waiting names in turn; `seen` holds the files found so far, in order. -/
def spread (g : Graph) (waiting seen : List FileId) : Except LinkError (List FileId) :=
  match waiting with
  | [] => .ok seen
  | name :: rest =>
    if _new : name ∈ seen then spread g rest seen
    else
      match _found : g.files.find? name with
      | none => .error (.missingFile name)
      | some file =>
        spread g (rest ++ file.imports.filter (· ∉ seen ++ [name])) (seen ++ [name])
termination_by ((unseen g.files seen).length, waiting.length)
decreasing_by
  · right
    simp
  · left
    exact unseen_append_lt _found _new

/-- The names of the files that the imports of a file lead to. -/
def closure (g : Graph) (file : SourceFile) : Except LinkError (List FileId) :=
  spread g file.imports []

/-- The files that the imports of a file lead to, each with its description. -/
def transitiveImports (g : Graph) (file : SourceFile) :
    Except LinkError (Table FileId (Module.Import Module)) := do
  let names ← closure g file
  return ⟨← names.mapM fun name ↦ return (name, ← import? g name)⟩

end Link

end IdlLinker
