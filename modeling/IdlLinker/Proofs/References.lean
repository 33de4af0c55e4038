import IdlLinker.Proofs.Faithful

/-!
# References of a module

A module refers to its own parts by position: to declarations in its arenas and to files among its
imports. This module collects all such references, from wherever they stand, and shows that none of
them leads astray: each is within its arena or table, so that looking it up gives what it stands
for.

The references of a declaration are those of its image, so what has to be shown is that each of them
stands for a key that the file reaches. A faithful module has such a key for each of its
declarations, and what the declaration under that key names is reached as well.
-/

namespace IdlLinker

open IdlLinker.Graph

/-- What a part of a module refers to by position. -/
inductive Reference where
  | type (u : UserType)
  | constant (id : ConstantId)
  | member (id : MemberId)
  | file (id : ImportId)

namespace Reference

variable (m : Module)

/-- A reference is within its arena, or within the table of imports. -/
def InRange : Reference → Prop
  | .type u => u.index < m.arenaSize u.tag
  | .constant id => id.index < m.declarations.constants.size
  | .member id => id.index < m.declarations.members.size
  | .file id => id.index < m.transitiveImports.size

/-- What a reference stands for can be looked up. -/
def Answered : Reference → Prop
  | .type u => (∃ name, m.userTypeName? u = some name) ∧ ∃ owner, m.userTypeOwner? u = some owner
  | .constant id => ∃ constant, m.constant? id = some constant
  | .member id => ∃ member, m.member? id = some member
  | .file id => ∃ description, m.import? id = some description

end Reference

/-! ## Where references stand -/

def Ty.references : Ty → List Reference
  | .primitive _ => []
  | .string => []
  | .handle _ => []
  | .array element _ _ => element.references
  | .map key _ value _ => key.references ++ value.references
  | .user u => [.type u]
  | .request id => [.type (.interface id)]

def Value.references : Value → List Reference
  | .literal _ => []
  | .builtin _ => []
  | .reference (.constant id) => [.constant id]
  | .reference (.member id) => [.member id]

def Owner.references : Owner → List Reference
  | .here => []
  | .imported id => [.file id]

namespace Module

def FieldDefault.references : FieldDefault → List Reference
  | .value v => v.references
  | .keyword => []

def Field.references (d : Field) : List Reference :=
  d.kind.ty.references ++ d.default?.toList.flatMap FieldDefault.references

def parameterReferences (ps : List Parameter) : List Reference :=
  ps.flatMap fun p ↦ p.kind.ty.references

def Method.references (d : Method) : List Reference :=
  parameterReferences d.parameters ++ d.response?.toList.flatMap parameterReferences

def nestedReferences (enums : List EnumId) (constants : List ConstantId) : List Reference :=
  enums.map (Reference.type <| .enum ·) ++ constants.map Reference.constant

def Struct.references (d : Struct) : List Reference :=
  d.owner.references ++ d.fields.flatMap Field.references ++ nestedReferences d.enums d.constants

def Union.references (d : Union) : List Reference :=
  d.owner.references ++ d.fields.flatMap Field.references

def Enum.references (d : Enum) : List Reference :=
  d.owner.references ++ d.parent?.toList.map .type ++
    d.fields.flatMap fun e ↦ e.value?.toList.flatMap Value.references

def Interface.references (d : Interface) : List Reference :=
  d.owner.references ++ d.methods.flatMap Method.references ++
    nestedReferences d.enums d.constants

def Constant.references (d : Constant) : List Reference :=
  d.owner.references ++ d.kind.ty.references ++ d.value.references ++ d.parent?.toList.map .type

def Member.references (d : Member) : List Reference :=
  [.type (.enum d.enum)] ++ d.owner.references ++ d.parent?.toList.map .type

/-- The references of all declarations. -/
def Declarations.references (d : Declarations) : List Reference :=
  d.structs.items.flatMap Struct.references ++ d.unions.items.flatMap Union.references ++
    d.enums.items.flatMap Enum.references ++ d.interfaces.items.flatMap Interface.references ++
    d.constants.items.flatMap Constant.references ++ d.members.items.flatMap Member.references

/-- The references to the declarations that a module lists at the top. -/
def listedReferences (m : Module) : List Reference :=
  m.constants.map Reference.constant ++ m.enums.map (Reference.type <| .enum ·) ++
    m.structs.map (Reference.type <| .struct ·) ++ m.unions.map (Reference.type <| .union ·) ++
    m.interfaces.map (Reference.type <| .interface ·)

/-- The references of a module: to its imports, of its lists at the top and of all its
declarations. -/
def references (m : Module) : List Reference :=
  m.imports.map Reference.file ++ m.listedReferences ++ m.declarations.references

end Module

/-! ## Answers -/

namespace Arena

variable {α : Type} {a : Arena α} {i : Nat}

theorem exists_get?_iff : (∃ x, a.get? i = some x) ↔ i < a.size := by
  rw [Arena.get?, Arena.size, ← Option.isSome_iff_exists]
  simp

end Arena

theorem Reference.InRange.answered {m : Module} {r : Reference} (h : r.InRange m) :
    r.Answered m := by
  cases r with
  | type u =>
    cases u <;>
    · obtain ⟨d, found⟩ := Arena.exists_get?_iff.mpr h
      exact ⟨⟨_, congrArg (Option.map _) found⟩, _, congrArg (Option.map _) found⟩
  | constant id => exact Arena.exists_get?_iff.mpr h
  | member id => exact Arena.exists_get?_iff.mpr h
  | file id => exact ⟨_, congrArg (Option.map _) (List.getElem?_eq_getElem h)⟩

/-! ## Images -/

theorem exists_of_rel {α β : Type} {p : α → β → Prop} {o : Option α} {o' : Option β}
    (h : Option.Rel p o o') {b : β} (hb : b ∈ o'.toList) : ∃ a, o = some a ∧ p a b := by
  cases h with
  | none => cases hb
  | some related =>
    obtain rfl := List.mem_singleton.mp hb
    exact ⟨_, rfl, related⟩

/-- All references in a list are in range. -/
def AllInRange (m : Module) (rs : List Reference) : Prop := ∀ r ∈ rs, r.InRange m

section

variable {m : Module} {r : Reference} {rs rs' : List Reference}

theorem allInRange_nil : AllInRange m [] := fun _ h ↦ absurd h List.not_mem_nil

theorem allInRange_singleton (h : r.InRange m) : AllInRange m [r] :=
  List.forall_mem_singleton.mpr h

theorem AllInRange.append (h : AllInRange m rs) (h' : AllInRange m rs') :
    AllInRange m (rs ++ rs') := List.forall_mem_append.mpr ⟨h, h'⟩

theorem allInRange_flatMap {α : Type} {l : List α} {k : α → List Reference}
    (h : ∀ x ∈ l, AllInRange m (k x)) : AllInRange m (l.flatMap k) := by
  intro r hr
  obtain ⟨x, hx, hr⟩ := List.mem_flatMap.mp hr
  exact h x hx r hr

theorem allInRange_arena {α : Type} {a : Arena α} {k : α → List Reference}
    (h : ∀ i x, a.get? i = some x → AllInRange m (k x)) : AllInRange m (a.items.flatMap k) :=
  allInRange_flatMap fun x hx ↦ by
    obtain ⟨i, there⟩ := List.mem_iff_getElem?.mp hx
    exact h i x there

theorem allInRange_map {α : Type} {l : List α} {k : α → Reference}
    (h : ∀ x ∈ l, (k x).InRange m) : AllInRange m (l.map k) := List.forall_mem_map.mpr h

end

namespace Faithful

variable {g : Graph} {f : FileId} {m : Module} {ρ : Naming} (h : Faithful g f m ρ)
  (wellFormed : WellFormed g f)
include h

/-! ### Keys -/

include wellFormed in
theorem inRange_type {key : TypeKey} {expected? : Option TypeTag}
    (reached : g.Reaches f (.type key expected?)) : (Reference.type (ρ.type key)).InRange m := by
  obtain ⟨d, found, -⟩ := wellFormed.types key expected? reached
  exact Module.mem_userTypes_iff.mp (h.types.mapsTo ⟨d, ⟨_, reached⟩, found⟩)

theorem inRange_constant {key : ValueKey} {d : Graph.Constant}
    (reached : g.ReachesConstant f key d) : (Reference.constant (ρ.constant key)).InRange m :=
  Arena.exists_get?_iff.mp (h.constants.mapsTo ⟨d, reached⟩)

theorem inRange_member {key : ValueKey} {d : Graph.Enumerator}
    (reached : g.ReachesMember f key d) : (Reference.member (ρ.member key)).InRange m :=
  Arena.exists_get?_iff.mp (h.members.mapsTo ⟨d, reached⟩)

/-! ### Parts -/

include wellFormed in
theorem kind_inRange {t : TypeExpr} {k : Kind} (image : KindImage ρ t k)
    (reached : ∀ {u}, t.Uses u → g.Reaches f u) : AllInRange m k.ty.references := by
  induction image with
  | primitive => exact allInRange_nil
  | string => exact allInRange_nil
  | handle => exact allInRange_nil
  | array _ _ ih => exact ih fun hu ↦ reached (.element hu)
  | map _ _ ihk ihv =>
    exact (ihk fun hu ↦ reached (.key hu)).append (ihv fun hu ↦ reached (.value hu))
  | user plain =>
    exact allInRange_singleton (h.inRange_type wellFormed (reached (.plain plain)))
  | request request id =>
    exact allInRange_singleton (id ▸ h.inRange_type wellFormed (reached (.request request)))

theorem value_inRange {e : ValueExpr} {v : Value} (image : ValueImage g ρ e v)
    (reached : ∀ {u}, e.Uses u → g.Reaches f u) : AllInRange m v.references := by
  cases image with
  | literal => exact allInRange_nil
  | builtin => exact allInRange_nil
  | constant found =>
    exact allInRange_singleton (h.inRange_constant ⟨Or.inr (reached .reference), found⟩)
  | member found =>
    exact allInRange_singleton (h.inRange_member ⟨reached .reference, found⟩)

omit h in
theorem owner_inRange {source? : Option SourceInfo} {o : Owner}
    (image : OwnerImage f m source? o) : AllInRange m o.references := by
  cases image with
  | here => exact allInRange_nil
  | @imported place id _ listed =>
    obtain ⟨entry, there, -⟩ := Option.map_eq_some_iff.mp listed
    obtain ⟨inside, -⟩ := List.getElem?_eq_some_iff.mp there
    exact allInRange_singleton (r := .file id) inside

include wellFormed in
theorem nested_inRange {d : Info} {enums : List EnumId} {constants : List ConstantId}
    (image : NestedImage ρ d enums constants) (reached : ∀ {u}, d.Nests u → g.Reaches f u) :
    AllInRange m (Module.nestedReferences enums constants) := by
  have listed : ∀ {α : Type} {p : Contained → List α} {x : α},
      x ∈ (d.contained?.map p).getD [] → ∃ c, d.contained? = some c ∧ x ∈ p c := by
    intro α p x hx
    cases hc : d.contained? with
    | none => simp [hc] at hx
    | some c => exact ⟨c, rfl, by simpa [hc] using hx⟩
  refine (allInRange_map fun id hid ↦ ?_).append (allInRange_map fun id hid ↦ ?_)
  · obtain ⟨key, hk, stands⟩ := exists_of_forall₂ image.enums hid
    obtain ⟨c, hc, hk⟩ := listed hk
    exact stands ▸ h.inRange_type wellFormed (reached (.enum hc hk))
  · obtain ⟨key, hk, rfl⟩ := exists_of_forall₂ image.constants hid
    obtain ⟨c, hc, hk⟩ := listed hk
    have there := reached (.constant hc hk)
    obtain ⟨d, found⟩ := wellFormed.constants key there
    exact h.inRange_constant ⟨Or.inl there, found⟩

include wellFormed in
theorem parent_inRange {container? : Option TypeKey}
    (reached : ∀ {key}, container? = some key → g.Reaches f (.type key none)) :
    AllInRange m ((container?.map ρ.type).toList.map .type) := by
  cases container? with
  | none => exact allInRange_nil
  | some key => exact allInRange_singleton (h.inRange_type wellFormed (reached rfl))

include wellFormed in
theorem parameters_inRange {fields : List StructField} {ps : List Module.Parameter}
    (images : List.Forall₂ (ParameterImage ρ) fields ps)
    (reached : ∀ {d u}, d ∈ fields → d.type.Uses u → g.Reaches f u) :
    AllInRange m (Module.parameterReferences ps) := by
  refine allInRange_flatMap fun p hp ↦ ?_
  obtain ⟨d, hd, image⟩ := exists_of_forall₂ images hp
  exact h.kind_inRange wellFormed image.kind (reached hd)

/-! ### Declarations -/

include wellFormed in
theorem struct_inRange {key : TypeKey} {d : Graph.Struct} {d' : Module.Struct}
    (reached : g.ReachesType f key (.struct d)) (image : StructImage g f m ρ d d') :
    AllInRange m d'.references := by
  refine ((owner_inRange image.owner).append (allInRange_flatMap fun x' hx' ↦ ?_)).append ?_
  · obtain ⟨x, hx, field⟩ := exists_of_forall₂ image.fields hx'
    refine (h.kind_inRange wellFormed field.kind fun hu ↦
      reached.uses (.structField hx hu)).append (allInRange_flatMap fun e he ↦ ?_)
    obtain ⟨default, hd, default'⟩ := exists_of_rel field.default he
    cases default' with
    | keyword => exact allInRange_nil
    | value value => exact h.value_inRange value fun hu ↦ reached.uses (.structDefault hx hd hu)
  · exact h.nested_inRange wellFormed image.nested fun hu ↦ reached.uses (.structNested hu)

include wellFormed in
theorem union_inRange {key : TypeKey} {d : Graph.Union} {d' : Module.Union}
    (reached : g.ReachesType f key (.union d)) (image : UnionImage f m ρ d d') :
    AllInRange m d'.references := by
  refine (owner_inRange image.owner).append (allInRange_flatMap fun x' hx' ↦ ?_)
  obtain ⟨x, hx, field⟩ := exists_of_forall₂ image.fields hx'
  refine (h.kind_inRange wellFormed field.kind fun hu ↦
    reached.uses (.unionField hx hu)).append ?_
  rw [field.default]
  exact allInRange_nil

include wellFormed in
theorem enum_inRange {key : TypeKey} {d : Graph.Enum} {d' : Module.Enum}
    (reached : g.ReachesType f key (.enum d)) (image : EnumImage g f m ρ d d') :
    AllInRange m d'.references := by
  refine ((owner_inRange image.owner).append ?_).append (allInRange_flatMap fun e' he' ↦ ?_)
  · rw [image.parent]
    exact h.parent_inRange wellFormed fun hc ↦ reached.uses (.enumContainer hc)
  · obtain ⟨e, he, member⟩ := exists_of_forall₂ image.fields he'
    refine allInRange_flatMap fun v hv ↦ ?_
    obtain ⟨initializer, hi, value⟩ := exists_of_rel member.value hv
    exact h.value_inRange value fun hu ↦ reached.uses (.enumInitializer he hi hu)

include wellFormed in
theorem interface_inRange {key : TypeKey} {d : Graph.Interface} {d' : Module.Interface}
    (reached : g.ReachesType f key (.interface d)) (image : InterfaceImage f m ρ d d') :
    AllInRange m d'.references := by
  refine ((owner_inRange image.owner).append (allInRange_flatMap fun x' hx' ↦ ?_)).append ?_
  · obtain ⟨x, hx, method⟩ := exists_of_forall₂ image.methods hx'
    refine (h.parameters_inRange wellFormed method.parameters fun hd hu ↦
      reached.uses (.parameter hx hd hu)).append (allInRange_flatMap fun ps hps ↦ ?_)
    obtain ⟨response, hr, images⟩ := exists_of_rel method.response hps
    exact h.parameters_inRange wellFormed images fun hd hu ↦
      reached.uses (.response hx hr hd hu)
  · exact h.nested_inRange wellFormed image.nested fun hu ↦ reached.uses (.interfaceNested hu)

include wellFormed in
theorem constant_inRange {key : ValueKey} {d : Graph.Constant} {d' : Module.Constant}
    (reached : g.ReachesConstant f key d) (image : ConstantImage g f m ρ d d') :
    AllInRange m d'.references := by
  refine (((owner_inRange image.owner).append ?_).append ?_).append ?_
  · exact h.kind_inRange wellFormed image.kind fun hu ↦ reached.uses (.constantType hu)
  · exact h.value_inRange image.value fun hu ↦ reached.uses (.constantValue hu)
  · rw [image.parent]
    exact h.parent_inRange wellFormed fun hc ↦ reached.uses (.constantContainer hc)

include wellFormed in
theorem member_inRange {key : ValueKey} {d : Graph.Enumerator} {e : Graph.Enum}
    {d' : Module.Member} (reached : g.ReachesMember f key d)
    (image : MemberImage g f m ρ d e d') : AllInRange m d'.references := by
  have enum := reached.uses .memberEnum
  have there : (Reference.type (.enum d'.enum)).InRange m :=
    image.enum ▸ h.inRange_type wellFormed enum
  refine ((allInRange_singleton there).append (owner_inRange image.owner)).append ?_
  rcases image.parent with orphan | nested
  · rw [orphan]
    exact allInRange_nil
  · rw [nested]
    refine h.parent_inRange wellFormed fun hc ↦ ?_
    exact ReachesType.uses ⟨⟨_, enum⟩, image.declared⟩ (.enumContainer hc)

/-! ### Modules -/

include wellFormed in
/-- Everything in an arena is the image of a declaration that the file reaches. -/
theorem declarations_inRange : AllInRange m m.declarations.references := by
  -- What lies in an arena of types is the image of the declaration that its position stands for.
  have types : AllInRange m (m.declarations.structs.items.flatMap Module.Struct.references ++
      m.declarations.unions.items.flatMap Module.Union.references ++
      m.declarations.enums.items.flatMap Module.Enum.references ++
      m.declarations.interfaces.items.flatMap Module.Interface.references) := by
    refine .append (.append (.append ?structs ?unions) ?enums) ?interfaces
    case structs =>
      refine allInRange_arena fun i d' there ↦ ?_
      obtain ⟨key, d, -, reached, image⟩ := h.exists_struct there
      exact h.struct_inRange wellFormed reached image
    case unions =>
      refine allInRange_arena fun i d' there ↦ ?_
      obtain ⟨key, d, -, reached, image⟩ := h.exists_union there
      exact h.union_inRange wellFormed reached image
    case enums =>
      refine allInRange_arena fun i d' there ↦ ?_
      obtain ⟨key, d, -, reached, image⟩ := h.exists_enum there
      exact h.enum_inRange wellFormed reached image
    case interfaces =>
      refine allInRange_arena fun i d' there ↦ ?_
      obtain ⟨key, d, -, reached, image⟩ := h.exists_interface there
      exact h.interface_inRange wellFormed reached image
  have constants : AllInRange m
      (m.declarations.constants.items.flatMap Module.Constant.references) := by
    refine allInRange_arena fun i d' there ↦ ?_
    obtain ⟨key, d, -, reached, image⟩ := h.exists_constant there
    exact h.constant_inRange wellFormed reached image
  have members : AllInRange m (m.declarations.members.items.flatMap Module.Member.references) := by
    refine allInRange_arena fun i d' there ↦ ?_
    obtain ⟨key, ⟨d, reached⟩, number⟩ := h.members.surjOn ⟨d', there⟩
    obtain ⟨e, d'', found, image⟩ := h.member key d reached
    rw [number] at found
    obtain rfl := Option.some.inj (there.symm.trans found)
    exact h.member_inRange wellFormed reached image
  exact (types.append constants).append members

include wellFormed in
theorem listing_inRange {source : SourceFile} (hf : g.files.find? f = some source) :
    AllInRange m m.listedReferences := by
  have listing := h.listing source hf
  have reached : ∀ {u}, (source.declared?.getD {}).Uses u → g.Reaches f u := fun hu ↦
    reaches_of_listed hf hu
  refine .append (.append (.append (.append ?_ ?_) ?_) ?_) ?_ <;>
    refine allInRange_map fun id hid ↦ ?_
  · obtain ⟨key, hk, rfl⟩ := exists_of_forall₂ listing.constants hid
    have there := reached (.constant hk)
    obtain ⟨d, found⟩ := wellFormed.constants key there
    exact h.inRange_constant ⟨Or.inl there, found⟩
  · obtain ⟨key, hk, stands⟩ := exists_of_forall₂ listing.enums hid
    exact stands ▸ h.inRange_type wellFormed (reached (.enum hk))
  · obtain ⟨key, hk, stands⟩ := exists_of_forall₂ listing.structs hid
    exact stands ▸ h.inRange_type wellFormed (reached (.struct hk))
  · obtain ⟨key, hk, stands⟩ := exists_of_forall₂ listing.unions hid
    exact stands ▸ h.inRange_type wellFormed (reached (.union hk))
  · obtain ⟨key, hk, stands⟩ := exists_of_forall₂ listing.interfaces hid
    exact stands ▸ h.inRange_type wellFormed (reached (.interface hk))

end Faithful

/-- **Nothing in a module leads astray.** -/
structure Module.Closed (m : Module) : Prop where
  /-- Every reference is within its arena or table. -/
  inRange : ∀ r ∈ m.references, r.InRange m
  /-- So everything that is referred to can be looked up. -/
  answered : ∀ r ∈ m.references, r.Answered m
  /-- The description of an import refers to nothing. -/
  descriptions : ∀ e ∈ m.transitiveImports.entries, e.2.module.references = []

namespace Link

variable {g : Graph} {f : FileId} {source : SourceFile} {v : Visits}
  {imports : Table FileId (Module.Import Module)}

theorem Links.imports_inRange (h : Links g f source imports v) :
    AllInRange h.module (h.module.imports.map .file) := by
  have names := closure_of_transitiveImports h.closed
  refine allInRange_map fun id hid ↦ ?_
  obtain ⟨name, hn, rfl⟩ : ∃ name ∈ source.imports, (⟨imports.index name⟩ : ImportId) = id :=
    List.mem_map.mp hid
  have listed : name ∈ imports.keys :=
    (mem_closure_iff h.file names).mpr (.single ⟨source, h.file, hn⟩)
  obtain ⟨description, found⟩ := Table.mem_keys_iff.mp listed
  exact Table.index_lt_size found

theorem Links.inRange (h : Links g f source imports v) :
    AllInRange h.module h.module.references := by
  have listing := h.faithful.listing_inRange h.wellFormed h.file
  have declarations := h.faithful.declarations_inRange h.wellFormed
  exact (h.imports_inRange.append listing).append declarations

theorem Links.module_closed (h : Links g f source imports v) : h.module.Closed where
  inRange := h.inRange
  answered r hr := (h.inRange r hr).answered
  descriptions e he := by
    obtain ⟨file, -, description⟩ := exists_file_of_mem_imports h.closed he
    rw [description]
    rfl

end Link

end IdlLinker
