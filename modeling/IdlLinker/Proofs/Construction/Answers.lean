import IdlLinker.Proofs.Construction.Follows
import IdlLinker.Proofs.Construction.Parents
import IdlLinker.Proofs.Faithful

/-!
# Parts that only add

A part of a declaration is resolved when all that it names has been found. If this succeeds, the
site has grown, and what comes out is the image of the part (`Answers`): what is found stands for
its key under every naming that says what is remembered at the end. An error says nothing, since
nothing goes on from there.

This is shown from any site whatever. It is the same for every part: its own steps neither add nor
write anything, so that growth comes from what finds declarations, and adds up.

## A second resolver

From where a part looks for something is not to be seen in its result. So it is run twice: with one
resolver and with another, which does the same wherever parents are known, and may do anything
elsewhere. That the part comes to the same end says that it never looks for anything from elsewhere.
-/

namespace IdlLinker.Construction

open IdlLinker.Graph IdlLinker.Link

variable {g : Graph} {s : Scope} {σ σ' σ'' : Site} {key : String} {r r' : Resolver}
  {α β ι : Type}

theorem asks_singleton {q : Requirement} {use : Use} : Asks [q] use ↔ q.use? = some use := by
  rw [asks_cons, or_iff_left not_asks_nil]

/-! ## Steps that succeed -/

theorem exists_of_bind_eq_ok {c : Build α} {k : α → Build β} {b : β}
    (h : (c >>= k) σ = .ok (b, σ'')) :
    ∃ a σ', c σ = .ok (a, σ') ∧ k a σ' = .ok (b, σ'') := by
  rw [bind_apply] at h
  cases first : c σ with
  | error halt =>
    rw [first] at h
    cases h
  | ok p =>
    rw [first] at h
    exact ⟨p.1, p.2, rfl, h⟩

theorem bind_eq_bind {c c' : Build α} {k k' : α → Build β} (same : c' σ = c σ)
    (next : ∀ {a σ'}, c σ = .ok (a, σ') → k' a σ' = k a σ') : (c' >>= k') σ = (c >>= k) σ := by
  rw [bind_apply, bind_apply, same]
  cases first : c σ with
  | error halt => rfl
  | ok p => exact next first

/-- A part has come to an end: the site has grown, what the part names is remembered, and what came
out of it is what was expected. -/
structure Answered (g : Graph) (s : Scope) (rs : List Requirement) (post : Naming → α → Prop)
    (σ : Site) (a : α) (σ' : Site) : Prop where
  growth : Growth g s σ σ'
  uses : ∀ {use}, Asks rs use → σ'.Remembers use
  image : ∀ {ρ}, σ'.NamedBy ρ → post ρ a

/-- Whenever a part succeeds it answers what is required. It is the same with the other resolver. -/
structure Answers (g : Graph) (s : Scope) (c c' : Build α) (rs : List Requirement)
    (post : Naming → α → Prop) : Prop where
  answered : ∀ {σ a σ'}, c σ = .ok (a, σ') → Answered g s rs post σ a σ'
  same : ∀ {σ}, σ.ParentsKnown → c' σ = c σ

namespace Answers

variable {c c' : Build α} {k k' : α → Build β} {rs rs' : List Requirement}
  {post : Naming → α → Prop} {post' : Naming → β → Prop}

theorem pure {a : α} (h : ∀ ρ, post ρ a) : Answers g s (pure a) (pure a) [] post := by
  refine ⟨fun {σ b σ'} ran ↦ ?_, fun _ ↦ rfl⟩
  obtain ⟨rfl, rfl⟩ := Prod.mk.inj (Except.ok.inj ran)
  exact ⟨.refl σ, fun asks ↦ absurd asks not_asks_nil, fun _ ↦ h _⟩

theorem refuse (e : LinkError) : Answers g s (refuse e) (refuse e) rs post :=
  ⟨nofun, fun _ ↦ rfl⟩

theorem bind {post₂ : α → Naming → β → Prop} (h : Answers g s c c' rs post)
    (h' : ∀ a, Answers g s (k a) (k' a) rs' (post₂ a)) :
    Answers g s (c >>= k) (c' >>= k') (rs ++ rs') fun ρ b ↦ ∃ a, post ρ a ∧ post₂ a ρ b where
  answered ran := by
    obtain ⟨a, σ', first, second⟩ := exists_of_bind_eq_ok ran
    have before := h.answered first
    have after := (h' a).answered second
    refine ⟨before.growth.trans after.growth, fun asks ↦ ?_, fun named ↦ ?_⟩
    · rcases asks_append.mp asks with asks | asks
      · exact (before.uses asks).mono after.growth.kept
      · exact after.uses asks
    · exact ⟨a, before.image (named.anti after.growth.kept), after.image named⟩
  same known := bind_eq_bind (h.same known) fun first ↦
    (h' _).same ((h.answered first).growth.parentsKnown known)

theorem imp {post₁ : Naming → α → Prop} (h : Answers g s c c' rs post)
    (imp : ∀ {ρ a}, post ρ a → post₁ ρ a) : Answers g s c c' rs post₁ where
  answered ran := { h.answered ran with image := fun named ↦ imp ((h.answered ran).image named) }
  same := h.same

/-- It does not matter in which form something is required. -/
theorem of_asks (h : Answers g s c c' rs post) (imp : ∀ {use}, Asks rs' use → Asks rs use) :
    Answers g s c c' rs' post where
  answered ran := { h.answered ran with uses := fun asks ↦ (h.answered ran).uses (imp asks) }
  same := h.same

/-- The last thing to do is to put the answers together. -/
theorem give (h : Answers g s c c' rs post) (f : α → β) :
    Answers g s (c >>= fun a ↦ Pure.pure (f a)) (c' >>= fun a ↦ Pure.pure (f a)) rs
      fun ρ b ↦ ∃ a, post ρ a ∧ b = f a := by
  have last : ∀ a, Answers g s (Pure.pure (f a)) (Pure.pure (f a)) [] fun _ b ↦ b = f a := fun a ↦
    .pure fun _ ↦ rfl
  rw [← List.append_nil rs]
  exact h.bind last

theorem map (h : Answers g s c c' rs post) {f : α → β}
    (imp : ∀ {ρ a}, post ρ a → post' ρ (f a)) :
    Answers g s (c >>= fun a ↦ Pure.pure (f a)) (c' >>= fun a ↦ Pure.pure (f a)) rs post' := by
  refine (h.give f).imp ?_
  rintro ρ _ ⟨a, found, rfl⟩
  exact imp found

theorem mapM {f f' : ι → Build α} {rs : ι → List Requirement} {post : Naming → ι → α → Prop}
    (h : ∀ x, Answers g s (f x) (f' x) (rs x) fun ρ ↦ post ρ x) (xs : List ι) :
    Answers g s (xs.mapM f) (xs.mapM f') (xs.flatMap rs) fun ρ as ↦
      List.Forall₂ (post ρ) xs as := by
  induction xs with
  | nil => exact .pure fun _ ↦ .nil
  | cons x xs ih =>
    rw [List.mapM_cons, List.mapM_cons, List.flatMap_cons]
    refine .imp ((h x).bind fun a ↦ ih.give _) ?_
    rintro ρ _ ⟨a, first, rest, others, rfl⟩
    exact .cons first others

theorem mapM_each {f f' : ι → Build α} {q : ι → Requirement} {post : Naming → ι → α → Prop}
    (h : ∀ x, Answers g s (f x) (f' x) [q x] fun ρ ↦ post ρ x) (xs : List ι) :
    Answers g s (xs.mapM f) (xs.mapM f') (xs.map q) fun ρ as ↦ List.Forall₂ (post ρ) xs as := by
  rw [← List.flatMap_pure_eq_map]
  exact .mapM h xs

end Answers

/-! ## What finds declarations -/

/-- What finds declarations only adds to the site, and remembers what it has found. The other
resolver does the same where parents are known. -/
structure Resolver.Grows (g : Graph) (s : Scope) (r r' : Resolver) : Prop where
  type : ∀ {key σ u σ'}, r.type key σ = .ok (u, σ') →
    Growth g s σ σ' ∧ σ'.typeIds.find? key = some u
  constant : ∀ {key σ id σ'}, r.constant key σ = .ok (id, σ') →
    Growth g s σ σ' ∧ σ'.constantIds.find? key = some id
  member : ∀ {key d σ id σ'}, g.values.find? key = some (.enumerator d) →
    r.member key d σ = .ok (id, σ') → Growth g s σ σ' ∧ σ'.memberIds.find? key = some id
  sameType : ∀ {key σ}, σ.ParentsKnown → r'.type key σ = r.type key σ
  sameConstant : ∀ {key σ}, σ.ParentsKnown → r'.constant key σ = r.constant key σ
  sameMember : ∀ {key d σ}, g.values.find? key = some (.enumerator d) → σ.ParentsKnown →
    r'.member key d σ = r.member key d σ

/-! ## Source files -/

theorem owner_of_ok {d : Info} {o : Owner} (h : owner s d σ = .ok (o, σ')) :
    σ' = σ ∧ OwnerImage s.file s.module d.source? o := by
  rw [owner] at h
  cases source : d.source? with
  | none =>
    rw [source] at h
    cases h
  | some place =>
    rw [source] at h
    dsimp only at h
    split at h
    · rename_i here
      obtain ⟨rfl, rfl⟩ := Prod.mk.inj (Except.ok.inj h)
      exact ⟨rfl, .here here⟩
    · rename_i elsewhere
      cases found : s.module.transitiveImports.find? place.fileName with
      | none =>
        rw [found] at h
        cases h
      | some description =>
        rw [found] at h
        obtain ⟨rfl, rfl⟩ := Prod.mk.inj (Except.ok.inj h)
        refine ⟨rfl, .imported elsewhere ?_⟩
        exact congrArg (Option.map Prod.fst) (Table.getElem?_index found)

theorem Answers.owner (d : Info) :
    Answers g s (owner s d) (owner s d) [requirementOfSource d] fun _ ↦
      OwnerImage s.file s.module d.source? := by
  refine ⟨fun ran ↦ ?_, fun _ ↦ rfl⟩
  obtain ⟨rfl, image⟩ := owner_of_ok ran
  exact ⟨.refl _, fun asks ↦ (nomatch asks_singleton.mp asks), fun _ ↦ image⟩

/-! ## Types of a kind -/

section

variable (hr : r.Grows g s r')
include hr

theorem Answers.type (key : TypeKey) :
    Answers g s (r.type key) (r'.type key) [.type key none] fun ρ u ↦ ρ.type key = u := by
  refine ⟨fun ran ↦ ?_, hr.sameType⟩
  obtain ⟨growth, cached⟩ := hr.type ran
  refine ⟨growth, fun asks ↦ ?_, fun named ↦ named.type cached⟩
  obtain rfl := Option.some.inj (asks_singleton.mp asks)
  exact .type cached nofun

theorem Answers.constant (key : ValueKey) :
    Answers g s (r.constant key) (r'.constant key) [.constant key] fun ρ id ↦
      ρ.constant key = id := by
  refine ⟨fun ran ↦ ?_, hr.sameConstant⟩
  obtain ⟨growth, cached⟩ := hr.constant ran
  refine ⟨growth, fun asks ↦ ?_, fun named ↦ named.constant cached⟩
  obtain rfl := Option.some.inj (asks_singleton.mp asks)
  exact .constant cached

theorem Answers.typed (tag : TypeTag) (key : TypeKey) :
    Answers g s (typed r tag key) (typed r' tag key) [.type key (some tag)] fun ρ id ↦
      ρ.type key = .ofTag tag id.index := by
  refine ⟨fun {σ id σ''} ran ↦ ?_, fun known ↦ bind_eq_bind (hr.sameType known) fun _ ↦ rfl⟩
  obtain ⟨u, σ', found, checked⟩ := exists_of_bind_eq_ok ran
  obtain ⟨growth, cached⟩ := hr.type found
  split at checked
  · rename_i fits
    obtain ⟨rfl, rfl⟩ := Prod.mk.inj (Except.ok.inj checked)
    subst fits
    refine ⟨growth, fun asks ↦ ?_, fun named ↦ ?_⟩
    · obtain rfl := Option.some.inj (asks_singleton.mp asks)
      exact .type cached fun _ expected ↦ Option.some.inj expected
    · exact (named.type cached).trans u.ofTag_tag_index.symm
  · cases checked

/-! ## Uses of types -/

theorem Answers.kind (t : TypeExpr) :
    Answers g s (kind r t) (kind r' t) (requirementsOfType t) fun ρ ↦ KindImage ρ t := by
  induction t with
  | primitive p => exact .pure fun _ ↦ .primitive
  | string nullable => exact .pure fun _ ↦ .string
  | handle nullable h => exact .pure fun _ ↦ .handle
  | array nullable length element ih =>
    exact ih.map fun image ↦ .array image (numberImage_length? length)
  | map nullable key value ihk ihv =>
    refine .imp (ihk.bind fun key ↦ ihv.give _) ?_
    rintro ρ _ ⟨key, keyImage, value, valueImage, rfl⟩
    exact .map keyImage valueImage
  | reference x =>
    unfold Construction.kind
    rw [requirementsOfType]
    cases request : x.isRequest with
    | true =>
      exact (Answers.typed hr .interface x.key).map fun stands ↦ .request request stands
    | false =>
      refine (Answers.type hr x.key).map fun {ρ u} stands ↦ ?_
      subst stands
      exact .user request

/-! ## Values -/

theorem Answers.valueRef (key : ValueKey) :
    Answers g s (valueRef g r key) (valueRef g r' key) [.value key] fun ρ target ↦
      ∀ x : ValueReference, x.key = key → ValueImage g ρ (.reference x) (.reference target) := by
  unfold Construction.valueRef
  cases found : g.values.find? key with
  | none => exact .refuse _
  | some d =>
    cases d with
    | constant d =>
      refine ⟨fun ran ↦ ?_, fun known ↦ bind_eq_bind (hr.sameConstant known) fun _ ↦ rfl⟩
      obtain ⟨id, σ', constant, same⟩ := exists_of_bind_eq_ok ran
      obtain ⟨rfl, rfl⟩ := Prod.mk.inj (Except.ok.inj same)
      obtain ⟨growth, cached⟩ := hr.constant constant
      refine ⟨growth, fun asks ↦ ?_, ?_⟩
      · obtain rfl := Option.some.inj (asks_singleton.mp asks)
        exact .valueConstant cached
      · rintro ρ named x rfl
        rw [← named.constant cached]
        exact .constant found
    | enumerator d =>
      refine ⟨fun ran ↦ ?_, fun known ↦ bind_eq_bind (hr.sameMember found known) fun _ ↦ rfl⟩
      obtain ⟨id, σ', member, same⟩ := exists_of_bind_eq_ok ran
      obtain ⟨rfl, rfl⟩ := Prod.mk.inj (Except.ok.inj same)
      obtain ⟨growth, cached⟩ := hr.member found member
      refine ⟨growth, fun asks ↦ ?_, ?_⟩
      · obtain rfl := Option.some.inj (asks_singleton.mp asks)
        exact .valueMember cached
      · rintro ρ named x rfl
        rw [← named.member cached]
        exact .member found

theorem Answers.value (v : ValueExpr) :
    Answers g s (value g r v) (value g r' v) (requirementsOfValue v) fun ρ ↦ ValueImage g ρ v := by
  cases v with
  | literal l =>
    rw [Construction.value, Construction.value]
    split
    · refine ⟨fun {σ v σ'} ran ↦ ?_, fun _ ↦ rfl⟩
      obtain ⟨rfl, rfl⟩ := Prod.mk.inj (Except.ok.inj ran)
      refine ⟨.refl σ, fun asks ↦ ?_, fun _ ↦ .literal⟩
      cases asks_requirementsOfValue.mp asks
    · exact .refuse _
  | builtin b => exact .pure fun _ ↦ .builtin
  | reference x => exact (Answers.valueRef hr x.key).map fun image ↦ image x rfl

theorem Answers.fieldDefault (d? : Option FieldDefault) :
    Answers g s (fieldDefault g r d?) (fieldDefault g r' d?) (requirementsOfDefault d?) fun ρ ↦
      Option.Rel (DefaultImage g ρ) d? := by
  rcases d? with _ | v | _
  · exact .pure fun _ ↦ .none
  · exact (Answers.value hr v).map fun image ↦ .some (.value image)
  · exact .pure fun _ ↦ .some .keyword

theorem Answers.initializer (v? : Option ValueExpr) :
    Answers g s (initializer g r v?) (initializer g r' v?)
      (v?.toList.flatMap requirementsOfValue) fun ρ ↦ Option.Rel (ValueImage g ρ) v? := by
  cases v? with
  | none => exact .pure fun _ ↦ .none
  | some v =>
    rw [Option.toList_some, List.flatMap_singleton]
    exact (Answers.value hr v).map .some

theorem Answers.parent (d : Info) :
    Answers g s (parent r d) (parent r' d) (d.container?.toList.map (.type · none))
      fun ρ parent? ↦ parent? = d.container?.map ρ.type := by
  unfold Construction.parent
  cases d.container? with
  | none => exact .pure fun _ ↦ rfl
  | some key => exact (Answers.type hr key).map fun stands ↦ congrArg some stands.symm

/-! ## Members -/

theorem Answers.structField (f : StructField) :
    Answers g s (structField g r f) (structField g r' f)
      (requirementsOfDefault f.default? ++ requirementsOfType f.type) fun ρ ↦
        StructFieldImage g ρ f := by
  refine .imp ((Answers.fieldDefault hr f.default?).bind fun _ ↦
    (Answers.kind hr f.type).give _) ?_
  rintro ρ _ ⟨default?, default, kind, image, rfl⟩
  exact ⟨rfl, image, numberImage_ordinal? _, default, attributesImage_attributesOf _⟩

theorem Answers.unionField (f : UnionField) :
    Answers g s (unionField r f) (unionField r' f) (requirementsOfType f.type) fun ρ ↦
      UnionFieldImage ρ f :=
  (Answers.kind hr f.type).map fun image ↦
    ⟨rfl, image, numberImage_ordinal? _, rfl, attributesImage_attributesOf _⟩

theorem Answers.enumerator (d : Graph.Enumerator) :
    Answers g s (enumerator g r d) (enumerator g r' d)
      (d.initializer?.toList.flatMap requirementsOfValue) fun ρ ↦ EnumeratorImage g ρ d :=
  (Answers.initializer hr d.initializer?).map fun image ↦
    ⟨rfl, rfl, image, attributesImage_attributesOf _⟩

theorem Answers.parameters (d : Graph.Struct) :
    Answers g s (parameters r d) (parameters r' d) (requirementsOfParameters d) fun ρ ↦
      List.Forall₂ (ParameterImage ρ) d.fields :=
  .mapM (fun f : StructField ↦ (Answers.kind hr f.type).map fun image ↦
    ⟨rfl, image, numberImage_ordinal? _, attributesImage_attributesOf _⟩) d.fields

theorem Answers.response (d? : Option Graph.Struct) :
    Answers g s (response r d?) (response r' d?)
      (d?.toList.flatMap requirementsOfParameters) fun ρ ↦
        Option.Rel (fun d ps ↦ List.Forall₂ (ParameterImage ρ) d.fields ps) d? := by
  cases d? with
  | none => exact .pure fun _ ↦ .none
  | some d =>
    rw [Option.toList_some, List.flatMap_singleton]
    exact (Answers.parameters hr d).map fun image ↦ .some image

theorem Answers.method (m : Graph.Method) :
    Answers g s (method r m) (method r' m) (requirementsOfMethod m) fun ρ ↦ MethodImage ρ m := by
  rw [requirementsOfMethod_eq]
  refine .imp ((Answers.parameters hr m.parameters).bind fun _ ↦
    (Answers.response hr m.response?).give _) ?_
  rintro ρ _ ⟨parameters, image, response?, responseImage, rfl⟩
  exact ⟨rfl, rfl, image, responseImage, attributesImage_attributesOf _⟩

theorem Answers.contained (d : Info) :
    Answers g s (contained r d) (contained r' d) (requirementsOfContained d) fun ρ nested ↦
      NestedImage ρ d nested.1 nested.2 := by
  unfold Construction.contained
  rw [requirementsOfContained]
  cases nests : d.contained? with
  | none => exact .pure fun _ ↦ ⟨by rw [nests]; exact .nil, by rw [nests]; exact .nil⟩
  | some c =>
    refine .imp ((Answers.mapM_each (Answers.typed hr .enum) c.enums).bind fun _ ↦
      (Answers.mapM_each (Answers.constant hr) c.constants).give _) ?_
    rintro ρ _ ⟨enums, enumImages, constants, constantImages, rfl⟩
    exact ⟨by rw [nests]; exact enumImages, by rw [nests]; exact constantImages⟩

/-! ## Constants -/

theorem Answers.constantOf (d : Graph.Constant) :
    Answers g s (constantOf g s r d) (constantOf g s r' d) (requirementsOfConstant d) fun ρ ↦
      ConstantImage g s.file s.module ρ d := by
  rw [requirementsOfConstant_eq]
  refine .imp ((Answers.owner d.info).bind fun _ ↦ (Answers.kind hr d.type).bind fun _ ↦
    (Answers.value hr d.value).bind fun _ ↦ (Answers.parent hr d.info).give _) ?_
  rintro ρ _ ⟨owner, ownerImage, kind, kindImage, value, valueImage, parent?, same, rfl⟩
  exact ⟨rfl, ownerImage, kindImage, valueImage, same⟩

end

end IdlLinker.Construction
