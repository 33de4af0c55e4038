import IdlLinker.Proofs.Construction.Follows
import IdlLinker.Proofs.Settle

/-!
# The parts of a declaration

What stands in a declaration is resolved part by part: its source file, its types, its values, its
members, its nested declarations. Each part comes with the list of what the walk requires for it,
and it is shown here that the part follows that list, when the declarations under other keys are
found as the walk finds them (`Resolver.Sound`).

Most parts are put together like their lists. Two are not. A type that has to be of some kind is
found first and looked at afterwards, while the walk looks at its kind last of all, after its
members (`Resolves.typed`); and a value reference has to find out whether it stands for a constant
or for an enum member before it can ask for either (`Resolves.valueRef`).
-/

namespace IdlLinker.Construction

open IdlLinker.Graph IdlLinker.Link IdlLinker.Link.Numbering

variable {g : Graph} {s : Scope} {σ σ' : Site} {v v' w : Visits} {key : String} {n : Nat}
  {tasks : List Task} {r : Resolver}

/-! ## Source files -/

theorem owner_cases (s : Scope) (d : Info) :
    (∃ o, s.sourceError? d.shortName d.source? = none ∧ owner s d = Pure.pure o ∧
        ∀ v, o = (ofVisits s v).owner d.source?) ∨
      ∃ e, s.sourceError? d.shortName d.source? = some e ∧ owner s d = refuse e := by
  rw [owner]
  cases source : d.source? with
  | none => exact Or.inr ⟨_, rfl, rfl⟩
  | some info =>
    by_cases here : info.fileName = s.file
    · refine Or.inl ⟨.here, ?_, if_pos here, fun v ↦ (if_pos here).symm⟩
      simp [Scope.sourceError?, Scope.reaches, here]
    · cases found : s.module.transitiveImports.find? info.fileName with
      | some description =>
        refine Or.inl ⟨.imported ⟨s.module.transitiveImports.index info.fileName⟩, ?_, ?_, ?_⟩
        · simp [Scope.sourceError?, Scope.reaches, found]
        · simp only [if_neg here, found]
        · exact fun v ↦ (if_neg here).symm
      | none =>
        refine Or.inr ⟨.notImported d.shortName info.fileName s.file, ?_, ?_⟩
        · simp [Scope.sourceError?, Scope.reaches, here, found]
        · simp only [if_neg here, found]

theorem turn_source_error {d : Info} {e : LinkError}
    (h : s.sourceError? d.shortName d.source? = some e) :
    turn g s (.meet (requirementOfSource d)) v = .error e := by
  rw [requirementOfSource, turn, h]

theorem Resolves.owner (d : Info) :
    Resolves g s n (owner s d) [requirementOfSource d] (·.owner d.source?) := by
  rcases owner_cases s d with ⟨o, known, same, result⟩ | ⟨e, failed, same⟩
  · exact same ▸ .met (fun _ ↦ .source known) result
  · exact same ▸ .refuse fun _ ↦ turn_source_error failed

/-- What finds declarations does so as the walk does. -/
structure Resolver.Sound (g : Graph) (s : Scope) (n : Nat) (r : Resolver) : Prop where
  type : ∀ key, Resolves g s n (r.type key) [.type key none] (·.userType key)
  constant : ∀ key, Resolves g s n (r.constant key) [.constant key] (·.constantId key)
  member : ∀ {key d}, g.values.find? key = some (.enumerator d) →
    Resolves g s n (r.member key d) [.value key] (·.memberId key)

/-! ## Types of a kind -/

theorem turn_type_error {e : LinkError} {expected? expected'? : Option TypeTag}
    (failed : turn g s (.meet (.type key expected?)) v = .error e) :
    turn g s (.meet (.type key expected'?)) v = .error e := by
  rw [turn, meetType] at failed ⊢
  split at failed
  · cases failed
  · split at failed
    · exact failed
    · cases failed

/-- To ask for a type of a kind is to ask for a type, and to look at its kind afterwards. -/
theorem eq_or_run_check (run : Run g s [.meet (.type key none)] v tasks v') (tag : TypeTag) :
    (tasks = [.meet (.type key none)] ∧ v' = v) ∨
      ∃ d, v'.types.find? key = some d ∧
        Run g s [.meet (.type key (some tag))] v (tasks ++ [.check key tag d.tag]) v' := by
  cases run with
  | refl => exact Or.inl ⟨rfl, rfl⟩
  | head first next =>
    right
    cases first with
    | @typeAgain _ _ d _ old =>
      exact ⟨d, next.grows.types old, .head (.typeAgain old) (next.append [.check key tag d.tag])⟩
    | @typeNew _ _ d _ new found =>
      refine ⟨d, next.grows.types (Table.find?_insert_self ..), .head (.typeNew new found) ?_⟩
      have next' := next.append [.check key tag d.tag]
      simp only [checks, Option.toList, List.map_nil, List.append_nil, List.append_assoc,
        List.cons_append, List.nil_append, List.map_cons] at next' ⊢
      exact next'
    | constantAgain asks => rcases asks with asks | asks <;> cases asks
    | constantNew asks => rcases asks with asks | asks <;> cases asks

section

variable (hr : r.Sound g s n)
include hr

theorem Resolves.typed (tag : TypeTag) (key : TypeKey) :
    Resolves g s n (typed r tag key) [.type key (some tag)]
      fun m ↦ ⟨m.number (arenaOf tag) key⟩ := by
  refine ⟨fun {σ v} mirrors bound ↦ ?_⟩
  have untyped := (hr.type key).follows mirrors bound
  rw [Construction.typed, bind_apply]
  generalize r.type key σ = outcome at untyped
  cases untyped with
  | refused run failed =>
    rcases eq_or_run_check run tag with ⟨same, rfl⟩ | ⟨d, -, run'⟩
    · obtain ⟨rfl, rfl⟩ := List.cons.inj same
      exact .refused .refl (turn_type_error failed)
    · exact .refused run' failed
  | @done u σ' v' run mirrors' advances result =>
    -- Both look at the kind only now, so that an error on the way to the type comes first.
    rcases eq_or_run_check run tag with ⟨same, -⟩ | ⟨d, visited, run'⟩
    · cases same
    · have number := result (.refl mirrors'.sound)
      rw [userType_eq mirrors'.sound.distinct visited] at number
      subst number
      change Follows g s none _ σ v _
        ((if (UserType.ofTag d.tag _).tag = tag then _ else _ : Build _) σ')
      rw [UserType.tag_ofTag, UserType.index_ofTag]
      split
      · rename_i fits
        subst fits
        refine .done (run'.tail .check) mirrors' advances fun {w} later ↦ ?_
        rw [later.number (mem_keysIn_arenaOf mirrors'.sound.distinct visited)]
      · rename_i unfit
        exact .refused run' (if_neg unfit)

/-! ## Uses of types -/

theorem Resolves.kind (t : TypeExpr) :
    Resolves g s n (kind r t) (requirementsOfType t) (·.kind t) := by
  induction t with
  | primitive p => exact .pure _
  | string nullable => exact .pure _
  | handle nullable h => exact .pure _
  | array nullable length element ih => exact ih.map _
  | map nullable key value ihk ihv => exact ihk.bind fun key ↦ ihv.map _
  | reference x =>
    rw [Construction.kind, requirementsOfType]
    simp only [Numbering.kind]
    split
    · exact (Resolves.typed hr .interface x.key).map fun id ↦ (⟨.request id, x.nullable⟩ : Kind)
    · exact (hr.type x.key).map fun u ↦ (⟨.user u, x.nullable⟩ : Kind)

/-! ## Values -/

theorem Resolves.valueRef (key : ValueKey) :
    Resolves g s n (valueRef g r key) [.value key] (·.valueRef key) := by
  rw [Construction.valueRef]
  split
  · rename_i missing
    refine .refuse fun v ↦ ?_
    rw [turn, missing]
  · rename_i d found
    refine ⟨fun {σ v} mirrors bound ↦ ?_⟩
    have same : turn g s (.meet (.constant key)) v = turn g s (.meet (.value key)) v := by
      simp only [turn, found]
    have constant := ((hr.constant key).map ValueRef.constant).follows mirrors bound
    refine (constant.of_turn_eq same).mono fun run mirrors' _ result w later ↦ ?_
    have met : (Requirement.value key).Met s _ := run.met _ (List.mem_singleton_self _)
    have visited : (w.constants.find? key).isSome := by
      cases met.use rfl with
      | valueConstant visited =>
        rw [Table.find?_of_prefix later.constants visited]
        rfl
      | valueMember visited => cases found.symm.trans (mirrors'.sound.members visited)
    rw [result later]
    exact (if_pos visited).symm
  · rename_i d found
    refine ⟨fun mirrors bound ↦ ?_⟩
    have member := ((hr.member found).map ValueRef.member).follows mirrors bound
    refine member.mono fun _ _ _ result w later ↦ ?_
    have other : ¬(w.constants.find? key).isSome := by
      rw [Option.isSome_iff_exists]
      rintro ⟨d', visited⟩
      cases found.symm.trans (later.sound.constants visited)
    rw [result later]
    exact (if_neg other).symm

theorem Resolves.value (v : ValueExpr) :
    Resolves g s n (value g r v) (requirementsOfValue v) (·.value v) := by
  cases v with
  | literal l =>
    rw [Construction.value]
    split
    · rename_i fine
      exact .met (fun _ ↦ .literal fine) fun _ ↦ rfl
    · rename_i unfit
      exact .refuse fun _ ↦ if_neg unfit
  | builtin b => exact .pure _
  | reference x => exact (Resolves.valueRef hr x.key).map _

theorem Resolves.fieldDefault (d? : Option FieldDefault) :
    Resolves g s n (fieldDefault g r d?) (requirementsOfDefault d?)
      fun m ↦ d?.map m.fieldDefault := by
  rcases d? with _ | v | _
  · exact .pure _
  · exact (Resolves.value hr v).map fun v ↦ some (Module.FieldDefault.value v)
  · exact .pure _

theorem Resolves.initializer (v? : Option ValueExpr) :
    Resolves g s n (initializer g r v?) (v?.toList.flatMap requirementsOfValue)
      fun m ↦ v?.map m.value := by
  cases v? with
  | none => exact .pure _
  | some v =>
    rw [Option.toList_some, List.flatMap_singleton]
    exact (Resolves.value hr v).map some

theorem Resolves.parent (d : Info) :
    Resolves g s n (parent r d) (d.container?.toList.map (.type · none))
      fun m ↦ d.container?.map m.userType := by
  rw [Construction.parent]
  cases d.container? with
  | none => exact .pure _
  | some key => exact (hr.type key).map some

/-! ## Members -/

theorem Resolves.structField (f : StructField) :
    Resolves g s n (structField g r f)
      (requirementsOfDefault f.default? ++ requirementsOfType f.type) fun m ↦
        ⟨f.info.shortName, m.kind f.type, ordinal? f.info, f.default?.map m.fieldDefault,
          attributesOf f.info.attributes?⟩ :=
  (Resolves.fieldDefault hr f.default?).bind fun _ ↦ (Resolves.kind hr f.type).map _

theorem Resolves.unionField (f : UnionField) :
    Resolves g s n (unionField r f) (requirementsOfType f.type) fun m ↦
      ⟨f.info.shortName, m.kind f.type, ordinal? f.info, none,
        attributesOf f.info.attributes?⟩ :=
  (Resolves.kind hr f.type).map _

theorem Resolves.enumerator (d : Graph.Enumerator) :
    Resolves g s n (enumerator g r d) (d.initializer?.toList.flatMap requirementsOfValue) fun m ↦
      ⟨d.info.shortName, attributesOf d.info.attributes?, d.number,
        d.initializer?.map m.value⟩ :=
  (Resolves.initializer hr d.initializer?).map _

theorem Resolves.parameters (d : Graph.Struct) :
    Resolves g s n (parameters r d) (requirementsOfParameters d) (·.parameters d) :=
  .mapM (fun f : StructField ↦ (Resolves.kind hr f.type).map _) d.fields

theorem Resolves.response (d? : Option Graph.Struct) :
    Resolves g s n (response r d?) (d?.toList.flatMap requirementsOfParameters)
      fun m ↦ d?.map m.parameters := by
  cases d? with
  | none => exact .pure _
  | some d =>
    rw [Option.toList_some, List.flatMap_singleton]
    exact (Resolves.parameters hr d).map some

theorem Resolves.method (m : Graph.Method) :
    Resolves g s n (method r m) (requirementsOfMethod m) (·.method m) := by
  rw [requirementsOfMethod_eq]
  exact (Resolves.parameters hr m.parameters).bind fun _ ↦ (Resolves.response hr m.response?).map _

theorem Resolves.contained (d : Info) :
    Resolves g s n (contained r d) (requirementsOfContained d)
      fun m ↦ (m.containedEnums d, m.containedConstants d) := by
  rw [Construction.contained, requirementsOfContained]
  simp only [containedEnums, containedConstants]
  cases d.contained? with
  | none => exact .pure _
  | some c =>
    exact (Resolves.mapM_each (Resolves.typed hr .enum) c.enums).bind fun enums ↦
      (Resolves.mapM_each hr.constant c.constants).map fun constants ↦ (enums, constants)

end

end IdlLinker.Construction
