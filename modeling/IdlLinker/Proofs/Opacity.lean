import IdlLinker.Proofs.Locality
import IdlLinker.Proofs.Renaming

/-!
# Keys are opaque

A key leads to a declaration, and this is all it does. When the keys of a graph are renamed, a link
has the same outcome: the very same module, number by number, or the same error, in which only the
key at fault has its new name. So nothing of a key gets into a module, and nothing depends on how
keys are written, on their order as texts, or on a type and a value having the same one.

## Two walks at once

The walk of the renamed graph does, turn by turn, what the walk of the graph does, with renamed
tasks and renamed visits. Different keys stay different, so a declaration has been visited in one
walk when it has been visited in the other. What happened on the way is left out of the comparison:
events hold keys, as texts.

## From visits to numbers

A number is a position, and a renamed key stands at the position of the key. The module is therefore
assembled from the same numbers, and from declarations that say the same apart from keys.
-/

namespace IdlLinker

open IdlLinker.Graph

namespace Link

variable {ρ : Renaming} {g : Graph} {f : FileId} {s : Scope} {task : Task}
  {front tasks tasks' : List Task} {v v' w : Visits} {source : SourceFile}

/-! ## Tasks -/

/-- The same task about renamed keys. -/
def Task.rename (ρ : Renaming) : Task → Task
  | .meet r => .meet (r.rename ρ)
  | .check key expected actual => .check (ρ.type key) expected actual
  | .typeDone key tag => .typeDone (ρ.type key) tag
  | .placed => .placed
  | .constantDone key => .constantDone (ρ.value key)
  | .memberDone key enum => .memberDone (ρ.value key) (ρ.type enum)

theorem map_meet_rename (rs : List Requirement) :
    (rs.map Task.meet).map (Task.rename ρ) = (rs.map (Requirement.rename ρ)).map .meet := by
  rw [List.map_map, List.map_map]
  rfl

theorem checks_rename (key : TypeKey) (expected? : Option TypeTag) (actual : TypeTag) :
    (checks key expected? actual).map (Task.rename ρ) =
      checks (ρ.type key) expected? actual := by
  cases expected? <;> rfl

theorem typeNew_rename (key : TypeKey) (expected? : Option TypeTag) (d : TypeDecl) :
    ((requirementsOfTypeDecl key d).map Task.meet ++ .typeDone key d.tag ::
        checks key expected? d.tag).map (Task.rename ρ) =
      (requirementsOfTypeDecl (ρ.type key) (d.rename ρ)).map .meet ++
        .typeDone (ρ.type key) (d.rename ρ).tag ::
          checks (ρ.type key) expected? (d.rename ρ).tag := by
  rw [List.map_append, List.map_cons, map_meet_rename, checks_rename,
    requirementsOfTypeDecl_rename, TypeDecl.tag_rename]
  rfl

/-! ## Visits -/

/-- The declarations of the first walk are visited in the second under renamed keys, in the same
order. -/
structure Visits.Renamed (ρ : Renaming) (v v' : Visits) : Prop where
  types : v'.types = v.types.mapEntries ρ.type (TypeDecl.rename ρ)
  constants : v'.constants = v.constants.mapEntries ρ.value (Graph.Constant.rename ρ)
  members : v'.members = v.members.mapEntries ρ.value (Graph.Enumerator.rename ρ)
  unplaced : v'.unplaced = v.unplaced.map ρ.type
  stray : v'.stray = v.stray.map ρ.value

namespace Visits.Renamed

variable (h : v.Renamed ρ v')
include h

theorem find?_types (key : TypeKey) :
    v'.types.find? (ρ.type key) = (v.types.find? key).map (TypeDecl.rename ρ) := by
  rw [h.types, Table.find?_mapEntries ρ.type_injective]

theorem find?_constants (key : ValueKey) :
    v'.constants.find? (ρ.value key) =
      (v.constants.find? key).map (Graph.Constant.rename ρ) := by
  rw [h.constants, Table.find?_mapEntries ρ.value_injective]

theorem find?_members (key : ValueKey) :
    v'.members.find? (ρ.value key) =
      (v.members.find? key).map (Graph.Enumerator.rename ρ) := by
  rw [h.members, Table.find?_mapEntries ρ.value_injective]

theorem log (e e' : Log.Event) : (v.log e).Renamed ρ (v'.log e') := ⟨h.1, h.2, h.3, h.4, h.5⟩

theorem visitType (key : TypeKey) (d : TypeDecl) :
    (v.visitType key d).Renamed ρ (v'.visitType (ρ.type key) (d.rename ρ)) where
  types := by
    rw [Visits.visitType, Visits.visitType, h.types, Table.insert_mapEntries ρ.type_injective]
  constants := h.constants
  members := h.members
  unplaced := h.unplaced
  stray := h.stray

theorem visitConstant (key : ValueKey) (d : Graph.Constant) :
    (v.visitConstant key d).Renamed ρ (v'.visitConstant (ρ.value key) (d.rename ρ)) where
  types := h.types
  constants := by
    rw [Visits.visitConstant, Visits.visitConstant, h.constants,
      Table.insert_mapEntries ρ.value_injective]
  members := h.members
  unplaced := h.unplaced
  stray := h.stray

theorem visitMember (key : ValueKey) (d : Graph.Enumerator) :
    (v.visitMember key d).Renamed ρ (v'.visitMember (ρ.value key) (d.rename ρ)) where
  types := h.types
  constants := h.constants
  members := by
    rw [Visits.visitMember, Visits.visitMember, h.members,
      Table.insert_mapEntries ρ.value_injective]
  unplaced := h.unplaced
  stray := h.stray

theorem leave (enum : TypeKey) : (v.leave enum).Renamed ρ (v'.leave (ρ.type enum)) where
  types := h.types
  constants := h.constants
  members := h.members
  unplaced := by rw [Visits.leave, Visits.leave, h.unplaced, List.map_cons]
  stray := h.stray

theorem comeBack : v.comeBack.Renamed ρ v'.comeBack where
  types := h.types
  constants := h.constants
  members := h.members
  unplaced := by rw [Visits.comeBack, Visits.comeBack, h.unplaced, List.map_drop]
  stray := h.stray

theorem placeMember (key : ValueKey) (enum : TypeKey) :
    (v.placeMember key enum).Renamed ρ (v'.placeMember (ρ.value key) (ρ.type enum)) where
  types := h.types
  constants := h.constants
  members := h.members
  unplaced := h.unplaced
  stray := by
    rw [Visits.placeMember, Visits.placeMember, h.unplaced, h.stray]
    simp only [List.mem_map_of_injective ρ.type_injective]
    by_cases away : enum ∈ v.unplaced
    · rw [if_pos away, if_pos away, List.map_cons]
    · rw [if_neg away, if_neg away]

end Visits.Renamed

/-! ## One turn -/

theorem rename_asks {r : Requirement} {key : ValueKey} (asks : r = .constant key ∨ r = .value key) :
    r.rename ρ = .constant (ρ.value key) ∨ r.rename ρ = .value (ρ.value key) := by
  rcases asks with rfl | rfl
  · exact Or.inl rfl
  · exact Or.inr rfl

theorem find?_constant_rename {key : ValueKey} {d : Graph.Constant}
    (found : g.values.find? key = some (.constant d)) :
    (g.rename ρ).values.find? (ρ.value key) = some (.constant (d.rename ρ)) := by
  rw [find?_values_rename, found]
  rfl

theorem find?_enumerator_rename {key : ValueKey} {d : Graph.Enumerator}
    (found : g.values.find? key = some (.enumerator d)) :
    (g.rename ρ).values.find? (ρ.value key) = some (.enumerator (d.rename ρ)) := by
  rw [find?_values_rename, found]
  rfl

/-- **A turn of the one walk is a turn of the other.** -/
theorem Turn.rename (h : Turn g s task v front w) (hv : v.Renamed ρ v') :
    ∃ w', Turn (g.rename ρ) s (task.rename ρ) v' (front.map (Task.rename ρ)) w' ∧
      w.Renamed ρ w' := by
  cases h with
  | source known => exact ⟨_, .source known, hv⟩
  | literal fine => exact ⟨_, .literal fine, hv⟩
  | @typeAgain key expected? d _ old =>
    have old' : v'.types.find? (ρ.type key) = some (d.rename ρ) := by
      rw [hv.find?_types, old]
      rfl
    rw [checks_rename, ← TypeDecl.tag_rename ρ]
    exact ⟨_, .typeAgain old', hv.log _ _⟩
  | @typeNew key expected? d _ new found =>
    have new' : v'.types.find? (ρ.type key) = none := by
      rw [hv.find?_types, new]
      rfl
    have found' : (g.rename ρ).types.find? (ρ.type key) = some (d.rename ρ) := by
      rw [find?_types_rename, found]
      rfl
    rw [typeNew_rename]
    exact ⟨_, .typeNew new' found', hv.visitType key d⟩
  | container => exact ⟨_, .container, hv.leave _⟩
  | @constantAgain r key d d' _ asks found old =>
    have old' : v'.constants.find? (ρ.value key) = some (d'.rename ρ) := by
      rw [hv.find?_constants, old]
      rfl
    exact ⟨_, .constantAgain (rename_asks asks) (find?_constant_rename found) old', hv.log _ _⟩
  | @constantNew r key d _ asks found new =>
    have new' : v'.constants.find? (ρ.value key) = none := by
      rw [hv.find?_constants, new]
      rfl
    rw [List.map_append, map_meet_rename, ← requirementsOfConstant_rename]
    exact ⟨_, .constantNew (rename_asks asks) (find?_constant_rename found) new',
      hv.visitConstant key d⟩
  | @memberAgain key d d' _ found old =>
    have old' : v'.members.find? (ρ.value key) = some (d'.rename ρ) := by
      rw [hv.find?_members, old]
      rfl
    exact ⟨_, .memberAgain (find?_enumerator_rename found) old', hv.log _ _⟩
  | @memberNew key d _ found new =>
    have new' : v'.members.find? (ρ.value key) = none := by
      rw [hv.find?_members, new]
      rfl
    rw [List.map_append, map_meet_rename, ← requirementsOfEnumerator_rename]
    exact ⟨_, .memberNew (find?_enumerator_rename found) new', hv.visitMember key d⟩
  | check => exact ⟨_, .check, hv⟩
  | typeDone => exact ⟨_, .typeDone, hv.log _ _⟩
  | placed => exact ⟨_, .placed, hv.comeBack⟩
  | constantDone => exact ⟨_, .constantDone, hv.log _ _⟩
  | memberDone => exact ⟨_, .memberDone, (hv.placeMember _ _).log _ _⟩

/-! ## A turn that fails -/

variable {e : LinkError}

/-- A source is at fault for where it stands, and no key has a part in that. -/
theorem rename_of_sourceError? {name : String} {source? : Option SourceInfo}
    (h : s.sourceError? name source? = some e) : e.rename ρ = e := by
  cases source? with
  | none =>
    obtain rfl := Option.some.inj h
    rfl
  | some place =>
    rw [Scope.sourceError?] at h
    by_cases reached : s.reaches place.fileName
    · rw [if_pos reached] at h
      cases h
    · rw [if_neg reached] at h
      obtain rfl := Option.some.inj h
      rfl

/-- A use of a type fails only where the type is missing. -/
theorem meetType_error_rename {key : TypeKey} {expected? : Option TypeTag} (hv : v.Renamed ρ v')
    (h : meetType g key expected? v = .error e) :
    meetType (g.rename ρ) (ρ.type key) expected? v' = .error (e.rename ρ) := by
  rw [meetType] at h
  split at h
  · cases h
  · rename_i new
    split at h
    · rename_i missing
      obtain rfl := Except.error.inj h
      rw [meetType, hv.find?_types, new, find?_types_rename, missing]
      rfl
    · cases h

/-- A use of a constant fails where nothing is there, or an enum member. -/
theorem turn_constant_error_rename {key : ValueKey} (v' : Visits)
    (h : turn g s (.meet (.constant key)) v = .error e) :
    turn (g.rename ρ) s (.meet (.constant (ρ.value key))) v' = .error (e.rename ρ) := by
  rw [turn] at h
  split at h
  · rename_i missing
    obtain rfl := Except.error.inj h
    rw [turn, find?_values_rename, missing]
    rfl
  · rename_i d found
    obtain rfl := Except.error.inj h
    rw [turn, find?_enumerator_rename found]
    rfl
  · cases h

/-- A use of a value fails only where nothing is there. -/
theorem turn_value_error_rename {key : ValueKey} (v' : Visits)
    (h : turn g s (.meet (.value key)) v = .error e) :
    turn (g.rename ρ) s (.meet (.value (ρ.value key))) v' = .error (e.rename ρ) := by
  rw [turn] at h
  split at h
  · rename_i missing
    obtain rfl := Except.error.inj h
    rw [turn, find?_values_rename, missing]
    rfl
  · cases h
  · cases h

/-- **A turn that fails, fails in the other walk for the same reason.** -/
theorem turn_error_rename (hv : v.Renamed ρ v') (h : turn g s task v = .error e) :
    turn (g.rename ρ) s (task.rename ρ) v' = .error (e.rename ρ) := by
  cases task with
  | meet r =>
    cases r with
    | source name source? =>
      rw [turn] at h
      split at h
      · rename_i e' failed
        obtain rfl := Except.error.inj h
        rw [Task.rename, Requirement.rename, turn, failed, rename_of_sourceError? failed]
      · cases h
    | literal l =>
      rw [turn] at h
      split at h
      · cases h
      · rename_i unfit
        obtain rfl := Except.error.inj h
        rw [Task.rename, Requirement.rename, turn, if_neg unfit]
        rfl
    | type key expected? => exact meetType_error_rename hv h
    | container enum key => cases h
    | constant key => exact turn_constant_error_rename v' h
    | value key => exact turn_value_error_rename v' h
  | check key expected actual =>
    rw [turn] at h
    split at h
    · cases h
    · rename_i differs
      obtain rfl := Except.error.inj h
      rw [Task.rename, turn, if_neg differs]
      rfl
  | _ => cases h

/-! ## Runs -/

/-- **A run of the one walk is a run of the other.** -/
theorem Run.rename (h : Run g s tasks v tasks' w) (hv : v.Renamed ρ v') :
    ∃ w', Run (g.rename ρ) s (tasks.map (Task.rename ρ)) v' (tasks'.map (Task.rename ρ)) w' ∧
      w.Renamed ρ w' := by
  induction h generalizing v' with
  | refl => exact ⟨v', .refl, hv⟩
  | head first _ ih =>
    obtain ⟨u', first', hu⟩ := first.rename hv
    obtain ⟨w', next', hw⟩ := ih hu
    rw [List.map_append] at next'
    exact ⟨w', .head first' next', hw⟩

variable {imports : Table FileId (Module.Import Module)}

theorem sameHeading_rename (source : SourceFile) : source.SameHeading (source.rename ρ) :=
  ⟨rfl, rfl, rfl, rfl, rfl⟩

theorem sameHeadings_rename : g.SameHeadings (g.rename ρ) f := by
  intro n _
  rw [find?_files_rename]
  cases g.files.find? n with
  | none => exact .none
  | some file => exact .some (sameHeading_rename file)

theorem closure_rename (hf : g.files.find? f = some source) :
    closure (g.rename ρ) (source.rename ρ) = closure g source :=
  (closure_congr sameHeadings_rename hf).symm

theorem transitiveImports_rename (hf : g.files.find? f = some source) :
    transitiveImports (g.rename ρ) (source.rename ρ) = transitiveImports g source := by
  rw [transitiveImports_congr sameHeadings_rename hf,
    transitiveImports_of_sameHeading (sameHeading_rename source)]

theorem start_rename (source : SourceFile) :
    start (source.rename ρ) = (start source).map (Task.rename ρ) := by
  rw [start, start, requirementsOfFile_rename, map_meet_rename]

theorem renamed_unbegun :
    (unbegun f source imports).Renamed ρ (unbegun f (source.rename ρ) imports) :=
  ⟨rfl, rfl, rfl, rfl, rfl⟩

theorem run_rename
    (h : Run g ⟨f, outline source imports⟩ (start source) (unbegun f source imports) tasks v) :
    ∃ v', Run (g.rename ρ) ⟨f, outline (source.rename ρ) imports⟩ (start (source.rename ρ))
      (unbegun f (source.rename ρ) imports) (tasks.map (Task.rename ρ)) v' ∧ v.Renamed ρ v' := by
  rw [start_rename, ← outline_congr (sameHeading_rename source)]
  exact h.rename renamed_unbegun

/-! ## Numbers -/

namespace Numbering

variable (ρ : Renaming) (n : Numbering)

/-- The same numbers for renamed keys. -/
def rename : Numbering where
  scope := n.scope
  structs := n.structs.mapEntries ρ.type (Graph.Struct.rename ρ)
  unions := n.unions.mapEntries ρ.type (Graph.Union.rename ρ)
  enums := n.enums.mapEntries ρ.type (Graph.Enum.rename ρ)
  interfaces := n.interfaces.mapEntries ρ.type (Graph.Interface.rename ρ)
  constants := n.constants.mapEntries ρ.value (Graph.Constant.rename ρ)
  members := n.members.mapEntries ρ.value (Graph.Enumerator.rename ρ)
  stray := n.stray.map ρ.value

theorem select_mapEntries {β : Type} {p : TypeDecl → Option β} {q : β → β}
    (h : ∀ d : TypeDecl, p (d.rename ρ) = (p d).map q) (t : Table TypeKey TypeDecl) :
    select p (t.mapEntries ρ.type (TypeDecl.rename ρ)) = (select p t).mapEntries ρ.type q := by
  rw [select, select, Table.mapEntries, Table.mapEntries, List.filterMap_map,
    List.map_filterMap]
  congr 1
  apply List.filterMap_congr
  intro e _
  rw [Function.comp_apply, h]
  cases p e.2 <;> rfl

theorem ofVisits_rename (h : v.Renamed ρ v') : ofVisits s v' = (ofVisits s v).rename ρ := by
  simp only [rename, ofVisits, h.types, h.constants, h.members, h.stray]
  congr 1 <;>
    · apply select_mapEntries
      intro d
      cases d <;> rfl

@[simp] theorem structId_rename (key : TypeKey) :
    (n.rename ρ).structId (ρ.type key) = n.structId key :=
  congrArg Id.mk (Table.index_mapEntries ρ.type_injective _ _ _)

@[simp] theorem unionId_rename (key : TypeKey) :
    (n.rename ρ).unionId (ρ.type key) = n.unionId key :=
  congrArg Id.mk (Table.index_mapEntries ρ.type_injective _ _ _)

@[simp] theorem enumId_rename (key : TypeKey) :
    (n.rename ρ).enumId (ρ.type key) = n.enumId key :=
  congrArg Id.mk (Table.index_mapEntries ρ.type_injective _ _ _)

@[simp] theorem interfaceId_rename (key : TypeKey) :
    (n.rename ρ).interfaceId (ρ.type key) = n.interfaceId key :=
  congrArg Id.mk (Table.index_mapEntries ρ.type_injective _ _ _)

@[simp] theorem constantId_rename (key : ValueKey) :
    (n.rename ρ).constantId (ρ.value key) = n.constantId key :=
  congrArg Id.mk (Table.index_mapEntries ρ.value_injective _ _ _)

@[simp] theorem userType_rename (key : TypeKey) :
    (n.rename ρ).userType (ρ.type key) = n.userType key := by
  have structs : ((n.rename ρ).structs.find? (ρ.type key)).isSome =
      (n.structs.find? key).isSome := by
    rw [rename, Table.find?_mapEntries ρ.type_injective, Option.isSome_map]
  have unions : ((n.rename ρ).unions.find? (ρ.type key)).isSome =
      (n.unions.find? key).isSome := by
    rw [rename, Table.find?_mapEntries ρ.type_injective, Option.isSome_map]
  have enums : ((n.rename ρ).enums.find? (ρ.type key)).isSome =
      (n.enums.find? key).isSome := by
    rw [rename, Table.find?_mapEntries ρ.type_injective, Option.isSome_map]
  rw [userType, userType, structs, unions, enums, structId_rename, unionId_rename,
    enumId_rename, interfaceId_rename]

@[simp] theorem valueRef_rename (key : ValueKey) :
    (n.rename ρ).valueRef (ρ.value key) = n.valueRef key := by
  have constants : ((n.rename ρ).constants.find? (ρ.value key)).isSome =
      (n.constants.find? key).isSome := by
    rw [rename, Table.find?_mapEntries ρ.value_injective, Option.isSome_map]
  have memberId : (n.rename ρ).memberId (ρ.value key) = n.memberId key :=
    congrArg Id.mk (Table.index_mapEntries ρ.value_injective _ _ _)
  rw [valueRef, valueRef, constants, constantId_rename, memberId]

/-! ## Parts -/

@[simp] theorem kind_rename (t : TypeExpr) : (n.rename ρ).kind (t.rename ρ) = n.kind t := by
  induction t with
  | primitive p => rfl
  | string nullable => rfl
  | handle nullable kind => rfl
  | array nullable length element ih => rw [TypeExpr.rename, kind, kind, ih]
  | map nullable key value ihk ihv => rw [TypeExpr.rename, kind, kind, ihk, ihv]
  | reference r =>
    rw [TypeExpr.rename, kind, kind, TypeReference.rename, userType_rename, interfaceId_rename]

@[simp] theorem value_rename (e : ValueExpr) : (n.rename ρ).value (e.rename ρ) = n.value e := by
  cases e with
  | literal l => rfl
  | builtin b => rfl
  | reference r => exact congrArg Value.reference (valueRef_rename ρ n r.key)

@[simp] theorem fieldDefault_rename (d : FieldDefault) :
    (n.rename ρ).fieldDefault (d.rename ρ) = n.fieldDefault d := by
  cases d with
  | value e => exact congrArg Module.FieldDefault.value (value_rename ρ n e)
  | keyword => rfl

@[simp] theorem containedEnums_rename (d : Info) :
    (n.rename ρ).containedEnums (d.rename ρ) = n.containedEnums d := by
  rw [containedEnums, containedEnums, Info.rename]
  cases d.contained? with
  | none => rfl
  | some c => simp [Contained.rename]

@[simp] theorem containedConstants_rename (d : Info) :
    (n.rename ρ).containedConstants (d.rename ρ) = n.containedConstants d := by
  rw [containedConstants, containedConstants, Info.rename]
  cases d.contained? with
  | none => rfl
  | some c => simp [Contained.rename]

@[simp] theorem parent_rename (d : Info) :
    (d.rename ρ).container?.map (n.rename ρ).userType = d.container?.map n.userType := by
  rw [Info.rename]
  cases d.container? with
  | none => rfl
  | some key => exact congrArg some (userType_rename ρ n key)

theorem info_rename (d : Info) :
    (d.rename ρ).shortName = d.shortName ∧ spec (d.rename ρ) = spec d ∧
      (d.rename ρ).attributes? = d.attributes? ∧ (d.rename ρ).source? = d.source? ∧
      ordinal? (d.rename ρ) = ordinal? d :=
  ⟨rfl, rfl, rfl, rfl, rfl⟩

@[simp] theorem owner_rename (source? : Option SourceInfo) :
    (n.rename ρ).owner source? = n.owner source? := rfl

/-! ## Declarations -/

theorem struct_rename (d : Graph.Struct) : (n.rename ρ).struct (d.rename ρ) = n.struct d := by
  simp [struct, Graph.Struct.rename, StructField.rename, info_rename, Function.comp_def]

theorem union_rename (d : Graph.Union) : (n.rename ρ).union (d.rename ρ) = n.union d := by
  simp [union, Graph.Union.rename, UnionField.rename, info_rename, Function.comp_def]

theorem enum_rename (d : Graph.Enum) : (n.rename ρ).enum (d.rename ρ) = n.enum d := by
  simp [enum, Graph.Enum.rename, Graph.Enumerator.rename, info_rename, Function.comp_def]

theorem parameters_rename (d : Graph.Struct) :
    (n.rename ρ).parameters (d.rename ρ) = n.parameters d := by
  simp [parameters, Graph.Struct.rename, StructField.rename, info_rename, Function.comp_def]

theorem method_rename (m : Graph.Method) : (n.rename ρ).method (m.rename ρ) = n.method m := by
  simp [method, Graph.Method.rename, info_rename, parameters_rename, Function.comp_def]

theorem interface_rename (d : Graph.Interface) :
    (n.rename ρ).interface (d.rename ρ) = n.interface d := by
  simp [interface, Graph.Interface.rename, Numbered.map, info_rename, method_rename,
    Function.comp_def]

theorem constant_rename (d : Graph.Constant) :
    (n.rename ρ).constant (d.rename ρ) = n.constant d := by
  simp [constant, Graph.Constant.rename, info_rename]

/-- A member is looked for among the stray ones, and its enum among the enums. -/
theorem member_rename (key : ValueKey) (d : Graph.Enumerator) :
    (n.rename ρ).member (ρ.value key) (d.rename ρ) = n.member key d := by
  have enumInfo : (((n.rename ρ).enums.find? (ρ.type d.enum)).map Graph.Enum.info).getD {} =
      (((n.enums.find? d.enum).map Graph.Enum.info).getD {}).rename ρ := by
    rw [rename, Table.find?_mapEntries ρ.type_injective]
    cases n.enums.find? d.enum <;> rfl
  have stray : ρ.value key ∈ (n.rename ρ).stray ↔ key ∈ n.stray :=
    List.mem_map_of_injective ρ.value_injective
  have scope : (n.rename ρ).scope = n.scope := rfl
  simp [member, Graph.Enumerator.rename, enumInfo, info_rename, stray, scope]

theorem map_values_rename {κ α β : Type} (r : κ → κ) {q : α → α} {p p' : α → β}
    (h : ∀ a, p' (q a) = p a) (t : Table κ α) :
    (t.mapEntries r q).values.map p' = t.values.map p := by
  rw [Table.values_mapEntries, List.map_map]
  exact List.map_congr_left fun a _ ↦ h a

theorem declarations_rename : (n.rename ρ).declarations = n.declarations := by
  have structs := map_values_rename ρ.type (struct_rename ρ n) n.structs
  have unions := map_values_rename ρ.type (union_rename ρ n) n.unions
  have enums := map_values_rename ρ.type (enum_rename ρ n) n.enums
  have interfaces := map_values_rename ρ.type (interface_rename ρ n) n.interfaces
  have constants := map_values_rename ρ.value (constant_rename ρ n) n.constants
  have members : ((n.members.mapEntries ρ.value (Graph.Enumerator.rename ρ)).entries.map
      fun e ↦ (n.rename ρ).member e.1 e.2) = n.members.entries.map fun e ↦ n.member e.1 e.2 := by
    rw [Table.mapEntries, List.map_map]
    exact List.map_congr_left fun e _ ↦ member_rename ρ n e.1 e.2
  rw [declarations, declarations, ← structs, ← unions, ← enums, ← interfaces, ← constants,
    ← members]
  rfl

theorem module_rename (top : TopLevel) :
    (n.rename ρ).module (top.rename ρ) = n.module top := by
  have scope : (n.rename ρ).scope = n.scope := rfl
  simp [module, TopLevel.rename, declarations_rename, scope, Function.comp_def]

end Numbering

variable {imports : Table FileId (Module.Import Module)}

/-- **The same module is assembled**, since no key gets into it. -/
theorem assembled_rename (h : v.Renamed ρ v') :
    assembled f (source.rename ρ) imports v' = assembled f source imports v := by
  have listed : (source.rename ρ).declared?.getD {} = (source.declared?.getD {}).rename ρ := by
    rw [SourceFile.rename]
    cases source.declared? <;> rfl
  rw [assembled, assembled, listed, ← outline_congr (sameHeading_rename source),
    Numbering.ofVisits_rename ρ h, Numbering.module_rename]

theorem Links.module_rename (h : Links g f source imports v) :
    (g.rename ρ).module f = .ok (assembled f source imports v) := by
  have file : (g.rename ρ).files.find? f = some (source.rename ρ) := by
    rw [find?_files_rename, h.file]
    rfl
  have closed := (transitiveImports_rename (ρ := ρ) h.file).trans h.closed
  obtain ⟨v', run, hv⟩ := run_rename (ρ := ρ) h.run
  exact module_eq_ok_iff.mpr
    ⟨source.rename ρ, imports, v', ⟨file, closed, run⟩, (assembled_rename hv).symm⟩

theorem module_rename_of_error (h : g.module f = .error e) :
    (g.rename ρ).module f = .error (e.rename ρ) := by
  have files := find?_files_rename ρ g f
  rcases of_module_eq_error h with ⟨missing, rfl⟩ | ⟨source, hf, failed | failed⟩
  · rw [missing] at files
    exact module_eq_error_of_missing files
  · -- An error of the closure names a file, which keeps its name.
    obtain ⟨n, -, -, rfl⟩ := closure_error hf failed
    rw [hf] at files
    exact module_eq_error_of_closure files ((closure_rename hf).trans failed)
  · obtain ⟨imports, task, rest, v, closed, run, failed⟩ := failed
    rw [hf] at files
    obtain ⟨v', run', hv⟩ := run_rename run
    refine module_eq_error_of_run files (transitiveImports_rename hf ▸ closed) run' ?_
    rw [← outline_congr (sameHeading_rename source)]
    exact turn_error_rename hv failed

end Link

open Link

/-- **Keys are opaque.** A graph whose keys are renamed gives the same module for every file, or the
same error about the renamed key. -/
theorem module_rename_eq_mapError (g : Graph) (ρ : Renaming) (f : FileId) :
    (g.rename ρ).module f = (g.module f).mapError (LinkError.rename ρ) := by
  cases linked : g.module f with
  | error e => exact module_rename_of_error linked
  | ok m =>
    obtain ⟨source, imports, v, links, rfl⟩ := module_eq_ok_iff.mp linked
    exact links.module_rename

end IdlLinker
