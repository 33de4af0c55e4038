import IdlLinker.Proofs.Settle

/-!
# Which files can be linked

A file can be linked exactly when it is *well formed*: every file that imports lead to is there, and
in what the file reaches every key leads to a declaration of the kind that its place requires, every
declaration stands in a file that can be used, and every value is representable.

The condition speaks of places and declarations one by one. It does not mention the order in which
they are looked at, nor that a declaration is looked at only once, however many places lead to it.

## The two directions

A walk that comes to its end has covered every use that the file reaches, and has met what each
declaration on the way requires; read off the graph, that is the condition. Conversely a well-formed
file has no defect, and a turn fails only on a defect.
-/

namespace IdlLinker

open IdlLinker.Graph IdlLinker.Link

/-- **What the graph has to hold for a file to be linked.** -/
structure WellFormed (g : Graph) (f : FileId) : Prop where
  /-- The file is there. -/
  file : ∃ source, g.files.find? f = some source
  /-- So is every file that imports lead to. -/
  imports : ∀ n, g.LeadsTo f n → ∃ source, g.files.find? n = some source
  /-- Where a type is used there is one, of the kind that the place requires. -/
  types : ∀ key expected?, g.Reaches f (.type key expected?) →
    ∃ d, g.types.find? key = some d ∧ ∀ expected ∈ expected?, d.tag = expected
  /-- Where a constant has to be there is one. -/
  constants : ∀ key, g.Reaches f (.constant key) → ∃ d, g.values.find? key = some (.constant d)
  /-- Where a value is used there is one. -/
  values : ∀ key, g.Reaches f (.value key) → ∃ d, g.values.find? key = some d
  /-- Every declaration stands in the file itself or in one that imports lead to. -/
  sources : ∀ d, g.ReachesInfo f d → ∃ place, d.source? = some place ∧ g.Sees f place.fileName
  /-- Every literal in the place of a value stands for a number, if it is of such a type. -/
  literals : ∀ l, g.ReachesLiteral f l → ¬l.NonFinite

variable {g : Graph} {f : FileId} {source : SourceFile} {v : Visits}
  {imports : Table FileId (Module.Import Module)}

/-! ## A finished walk -/

theorem Link.Links.exists_of_covers_value (h : Links g f source imports v) {key : ValueKey}
    (covered : v.Covers (.value key)) : ∃ d, g.values.find? key = some d := by
  cases covered with
  | valueConstant visited => exact ⟨_, (h.reached.constants visited).2⟩
  | valueMember visited => exact ⟨_, (h.reached.members visited).2⟩

theorem Link.Links.sees_source (h : Links g f source imports v) {d : Info}
    (hd : g.ReachesInfo f d) :
    ∃ place, d.source? = some place ∧ g.Sees f place.fileName := by
  rw [← sourceError?_eq_none_iff h.file h.closed d.shortName]
  cases hd with
  | @type key d reached =>
    have listed : requirementOfSource d.info ∈ requirementsOfTypeDecl key d :=
      source_mem_requirementsOfTypeDecl.mpr ⟨rfl, rfl⟩
    exact (h.met_type (h.find?_types_iff.mpr reached) _ listed).source rfl
  | @constant key d reached =>
    have listed : requirementOfSource d.info ∈ requirementsOfConstant d :=
      source_mem_requirementsOfConstant.mpr ⟨rfl, rfl⟩
    exact (h.met_constant (h.find?_constants_iff.mpr reached) _ listed).source rfl

theorem Link.Links.representable (h : Links g f source imports v) {l : Literal}
    (hl : g.ReachesLiteral f l) : ¬l.NonFinite := by
  rw [← Literal.isRepresentable_iff]
  cases hl with
  | @type key d _ reached holds =>
    have listed : .literal l ∈ requirementsOfTypeDecl key d :=
      literal_mem_requirementsOfTypeDecl.mpr holds
    exact (h.met_type (h.find?_types_iff.mpr reached) _ listed).literal rfl
  | constant reached holds =>
    have listed := literal_mem_requirementsOfConstant.mpr holds
    exact (h.met_constant (h.find?_constants_iff.mpr reached) _ listed).literal rfl

theorem Link.Links.wellFormed (h : Links g f source imports v) : WellFormed g f where
  file := ⟨source, h.file⟩
  imports n := exists_file_of_leadsTo h.file h.closed
  types key expected? reached := by
    obtain ⟨visited, fits⟩ := h.covers reached
    exact ⟨_, (h.reached.types visited).2, fits⟩
  constants key reached := by
    cases h.covers reached with
    | constant visited => exact ⟨_, (h.reached.constants visited).2⟩
  values key reached := h.exists_of_covers_value (h.covers reached)
  sources d := h.sees_source
  literals l := h.representable

/-! ## A well-formed file -/

theorem WellFormed.not_defect (h : WellFormed g f) {e : LinkError} : ¬Defect g f e := by
  intro defect
  cases defect with
  | @missingFile n path missing =>
    obtain ⟨source, present⟩ : ∃ source, g.files.find? n = some source := by
      rcases Relation.reflTransGen_iff_eq_or_transGen.mp path with rfl | path
      · exact h.file
      · exact h.imports n path
    rw [missing] at present
    cases present
  | missingType reached missing =>
    obtain ⟨d, found, -⟩ := h.types _ _ reached
    rw [missing] at found
    cases found
  | missingValue reached missing =>
    rcases reached with reached | reached
    · obtain ⟨d, found⟩ := h.constants _ reached
      rw [missing] at found
      cases found
    · obtain ⟨d, found⟩ := h.values _ reached
      rw [missing] at found
      cases found
  | typeMismatch reached found differs =>
    obtain ⟨d, found', fits⟩ := h.types _ _ reached
    obtain rfl := Option.some.inj (found.symm.trans found')
    exact differs (fits _ rfl).symm
  | valueMismatch reached found =>
    obtain ⟨d, found'⟩ := h.constants _ reached
    cases found.symm.trans found'
  | missingSource reached missing =>
    obtain ⟨place, source, -⟩ := h.sources _ reached
    rw [missing] at source
    cases source
  | notImported reached source unseen =>
    obtain ⟨place, source', sees⟩ := h.sources _ reached
    obtain rfl := Option.some.inj (source.symm.trans source')
    exact unseen sees
  | unrepresentable reached unfit => exact h.literals _ reached unfit

theorem WellFormed.exists_module (h : WellFormed g f) : ∃ m, g.module f = .ok m := by
  cases outcome : g.module f with
  | ok m => exact ⟨m, rfl⟩
  | error e =>
    -- Whatever failed, there was a defect.
    exfalso
    rcases of_module_eq_error outcome with ⟨missing, rfl⟩ | ⟨source, hf, failed | failed⟩
    · exact h.not_defect (.missingFile .refl missing)
    · obtain ⟨n, path, missing, rfl⟩ := closure_error hf failed
      exact h.not_defect (.missingFile path.to_reflTransGen missing)
    · obtain ⟨imports, task, rest, v, closed, run, failed⟩ := failed
      obtain ⟨-, warranted⟩ := warranted_of_run hf run
      exact h.not_defect
        (defect_of_turn_eq_error hf closed (warranted task List.mem_cons_self) failed)

/-! ## The equivalence -/

/-- **A file can be linked exactly when it is well formed.** -/
theorem exists_module_iff_wellFormed : (∃ m, g.module f = .ok m) ↔ WellFormed g f := by
  constructor
  · rintro ⟨m, linked⟩
    obtain ⟨source, imports, v, links, -⟩ := module_eq_ok_iff.mp linked
    exact links.wellFormed
  · exact WellFormed.exists_module

end IdlLinker
