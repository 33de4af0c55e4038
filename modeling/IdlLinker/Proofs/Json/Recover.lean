import IdlLinker.Proofs.Json.Spelling

/-!
# Reading a spelling

Every spelling of a value is read as the value (`Shape.reads`), by recursion on the description. The
cases are put together from one lemma for each kind of value, in which the texts of the parts are
already known to be read.

A record asks for more than its parts. Its members may stand in any order, may be missing where they
hold a default, and may have strangers among them; so what is followed through the members is not a
list of values but the slots that are filled so far. A choice asks for more than its payload: the
reader has to come to the variant by its tag, past all the others, and `Variants.Tagged` carries how
it finds what reads the rest.

What is absent must not be mistaken for what is there. That is why an optional part is required to
be `Firm`, never beginning like `null`.
-/

namespace IdlLinker.Json

open Reader

variable {α β : Type} {depth : Nat} {gap gap' rest t u : List UInt8}

/-! ## Brackets -/

theorem enter_ok {b : UInt8} (more : 1 < depth) :
    enter depth (b :: rest) = .ok (depth - 1, rest) := by
  rw [enter, if_neg (Nat.not_le.mpr more)]
  rfl

theorem solid_bracket {b : UInt8} (h : b = 0x5b ∨ b = 0x7b) : Solid (b :: u) := by
  rcases h with rfl | rfl <;> exact ⟨_, _, rfl, by decide, by decide⟩

section Containers

variable {shape : Shape α}

theorem reads_list {as : List α} {items : List (List UInt8)} (more : 1 < depth)
    (reads : List.Forall₂ (fun a t ↦ Reads (shape.read (depth - 1)) t a) as items)
    (h : IsList items t) : Reads ((Shape.list shape).read depth) t as := by
  obtain ⟨tail, rfl, loop⟩ := items_ok h reads
  refine ⟨solid_bracket (.inl rfl), fun gap rest blank apart ↦ ?_⟩
  rw [Shape.read, List.cons_append, bind_ok (start_ok blank (by decide)), if_pos (by decide),
    bind_ok (enter_ok more), bind_ok (remaining_eq _)]
  exact loop _ rest (by simp)

theorem reads_table {tbl : Table String α} {members : List (String × List UInt8)}
    (more : 1 < depth) (nodup : tbl.keys.Nodup)
    (reads : List.Forall₂ (fun e m ↦ m.1 = e.1 ∧ Reads (shape.read (depth - 1)) m.2 e.2)
      tbl.entries members) (h : IsRecord members t) :
    Reads ((Shape.table shape).read depth) t tbl := by
  obtain ⟨texts, isMember, encloses⟩ := h
  have stores := forall₂_trans reads isMember fun _ _ _ ↦ moves_entry
  have chain := chain_of_forall₂ stores Table.empty
  rw [← Table.ofList, Table.ofList_of_nodup nodup] at chain
  obtain ⟨tail, rfl, loop⟩ := members_ok encloses chain
  refine ⟨solid_bracket (.inr rfl), fun gap rest blank apart ↦ ?_⟩
  rw [Shape.read, List.cons_append, bind_ok (start_ok blank (by decide)), if_pos (by decide),
    bind_ok (enter_ok more)]
  exact (bind_ok (remaining_eq _)).trans
    (loop _ rest (by simp))

theorem reads_numbered {es : Numbered α} {members : List (List UInt8 × List UInt8)}
    (more : 1 < depth)
    (reads : List.Forall₂ (fun e m ↦ m.1 = bytes (quoted (toString e.1)) ∧
      Reads (shape.read (depth - 1)) m.2 e.2) es.entries members) (h : IsObject members t) :
    Reads ((Shape.numbered shape).read depth) t es := by
  obtain ⟨texts, isMember, encloses⟩ := h
  have stores := forall₂_trans reads isMember fun _ _ _ ↦ moves_numbered
  have chain := chain_of_forall₂ stores Numbered.empty
  rw [foldl_insert_entries] at chain
  obtain ⟨tail, rfl, loop⟩ := members_ok encloses chain
  refine ⟨solid_bracket (.inr rfl), fun gap rest blank apart ↦ ?_⟩
  rw [Shape.read, List.cons_append, bind_ok (start_ok blank (by decide)), if_pos (by decide),
    bind_ok (enter_ok more)]
  exact (bind_ok (remaining_eq _)).trans
    (loop _ rest (by simp))

theorem reads_record {ρ σ : Type} {name : String} {fields : Fields α ρ σ} {build : ρ → α} {a : α}
    {kept added members : List (String × List UInt8)} (more : 1 < depth)
    (whole : build (fields.parts a) = a) (names : fields.names.Nodup)
    (keeps : fields.Keeps (fields.parts a) kept)
    (reads : ∀ m ∈ kept, fields.ReadsMember (depth - 1) (fields.parts a) m.1 m.2)
    (foreign : ∀ m ∈ added, m.1 ∉ fields.names ∧ IsJson m.2)
    (perm : members.Perm (kept ++ added)) (h : IsRecord members t) :
    Reads ((Shape.record name fields build).read depth) t a := by
  obtain ⟨tail, slots, rfl, fill, loop⟩ :=
    Fields.members_of_keeps names keeps reads foreign perm h
  refine ⟨solid_bracket (.inr rfl), fun gap rest blank apart ↦ ?_⟩
  rw [Shape.read, List.cons_append, bind_ok (start_ok blank (by decide)), if_pos (by decide),
    bind_ok (enter_ok more), bind_ok (remaining_eq _),
    bind_ok (loop _ rest (by simp)), fill]
  dsimp only
  rw [whole]
  rfl

end Containers

/-! ## Tagged values -/

/-- How a tagged value stands in a document, and what reads it: a bare tag, or an object with the
tag for its only key. -/
inductive Variants.Tagged (variants : Variants α) (depth : Nat) (a : α) (t : List UInt8) :
    Prop where
  | bare (tag : String) (known : tag ∈ variants.tags) (text : IsText tag t)
      (read : ∀ tags i, variants.readBare tags tag i = .ok (a, i))
  | payload (tag : String) (known : tag ∈ variants.tags) (payload : List UInt8) (more : 1 < depth)
      (object : IsRecord [(tag, payload)] t)
      (read : ∀ tags gap gap' rest, Blank gap → Blank gap' → Apart rest →
        variants.readTagged tags (depth - 1) tag (gap ++ 0x3a :: (gap' ++ (payload ++ rest))) =
          .ok (a, rest))

/-- A variant in front changes nothing for the tags of the others. -/
theorem Variants.Tagged.cons {variants rest : Variants α} {a : α} {tag : String}
    (h : rest.Tagged depth a t) (tags : variants.tags = tag :: rest.tags) (new : tag ∉ rest.tags)
    (bare : ∀ tags tag', tag' ≠ tag → variants.readBare tags tag' = rest.readBare tags tag')
    (tagged : ∀ tags tag', tag' ≠ tag →
      variants.readTagged tags (depth - 1) tag' = rest.readTagged tags (depth - 1) tag') :
    variants.Tagged depth a t := by
  have known {tag' : String} (isTag : tag' ∈ rest.tags) : tag' ∈ variants.tags :=
    tags ▸ List.mem_cons_of_mem tag isTag
  have differs {tag' : String} (isTag : tag' ∈ rest.tags) : tag' ≠ tag :=
    fun same ↦ new (same ▸ isTag)
  cases h with
  | bare tag' isTag text read =>
    exact .bare tag' (known isTag) text fun tags i ↦ by rw [bare tags tag' (differs isTag), read]
  | payload tag' isTag payload more object read =>
    refine .payload tag' (known isTag) payload more object
      fun tags gap gap' rest' blank blank' apart ↦ ?_
    rw [tagged tags tag' (differs isTag), read _ _ _ _ blank blank' apart]

theorem exists_of_isRecord_singleton {tag : String} {payload : List UInt8}
    (h : IsRecord [(tag, payload)] t) : ∃ key g₁ g₂ g₃ g₄ : List UInt8, IsText tag key ∧ Blank g₁ ∧
      Blank g₂ ∧ Blank g₃ ∧ Blank g₄ ∧
      t = 0x7b :: (g₁ ++ (key ++ (g₂ ++ 0x3a :: (g₃ ++ payload)) ++ (g₄ ++ [0x7d]))) := by
  obtain ⟨texts, isMember, encloses⟩ := h
  obtain ⟨text, texts, ⟨key, isText, blank₂, blank₃⟩, noMore, rfl⟩ :=
    List.forall₂_cons_left_iff.mp isMember
  cases noMore
  cases encloses with
  | parts blank₁ others =>
    cases others with
    | stop blank₄ => exact ⟨_, _, _, _, _, isText, blank₁, blank₂, blank₃, blank₄, rfl⟩

theorem tagKey_ok {tag : String} {key : List UInt8} (h : IsText tag key) (blank : Blank gap) :
    tagKey (gap ++ (key ++ rest)) = .ok (tag, rest) := by
  obtain ⟨u, rfl, string_ok⟩ := h.exists_string_ok
  have quote : next (gap ++ 0x22 :: (u ++ rest)) = .ok (some '"', 0x22 :: (u ++ rest)) :=
    next_ok blank (by decide)
  rw [List.cons_append, tagKey, bind_ok quote]
  exact (bind_ok (advance_cons _ _)).trans (string_ok rest)

theorem closeTagged_ok (blank : Blank gap) :
    closeTagged (gap ++ 0x7d :: rest) = .ok ((), rest) := by
  rw [closeTagged, bind_ok (next_ok blank (by decide))]
  rfl

/-- **A tagged value is read** from either form. -/
theorem Variants.Tagged.reads {variants : Variants α} {a : α} (h : variants.Tagged depth a t) :
    Reads ((Shape.choice variants).read depth) t a := by
  cases h with
  | bare tag known text read =>
    refine ⟨text.solid, fun gap rest blank _ ↦ ?_⟩
    obtain ⟨u, rfl, string_ok⟩ := text.exists_string_ok
    rw [List.cons_append, Shape.read, bind_ok (start_ok blank (by decide)), if_neg (by decide),
      if_pos (by decide)]
    exact (bind_ok (advance_cons _ _)).trans ((bind_ok (string_ok rest)).trans (read _ _))
  | payload tag known payload more object read =>
    obtain ⟨key, g₁, g₂, g₃, g₄, isText, blank₁, blank₂, blank₃, blank₄, rfl⟩ :=
      exists_of_isRecord_singleton object
    refine ⟨solid_bracket (.inr rfl), fun gap rest blank _ ↦ ?_⟩
    have apart := (Continues.stop blank₄).apart (.inr rfl) rest
    simp only [List.append_assoc, List.cons_append, List.nil_append] at apart ⊢
    rw [Shape.read, bind_ok (start_ok blank (by decide)), if_pos (by decide),
      bind_ok (enter_ok more), bind_ok (tagKey_ok isText blank₁),
      bind_ok (read _ _ _ _ blank₂ blank₃ apart), bind_ok (closeTagged_ok blank₄)]
    rfl

/-! ## All shapes -/

theorem Variants.begins {α : Type} {a : α} {t : List UInt8} :
    (variants : Variants α) → variants.Spells a t →
      ∃ b u, t = b :: u ∧ (b = 0x22 ∨ b = 0x5b ∨ b = 0x7b)
  | .done, h => h.elim
  | .bare tag _ isValue rest, h => by
    rw [Variants.Spells] at h
    split at h
    · obtain ⟨glyphs, -, rfl⟩ := h
      exact ⟨_, _, rfl, .inl rfl⟩
    · exact rest.begins h
  | .payload tag shape _ project rest, h => by
    rw [Variants.Spells] at h
    split at h
    · obtain ⟨payload, -, texts, -, encloses⟩ := h
      cases encloses <;> exact ⟨_, _, rfl, .inr (.inr rfl)⟩
    · exact rest.begins h

theorem Shape.begins_of_firm {shape : Shape α} {a : α} (firm : shape.Firm)
    (h : shape.Spells a t) : ∃ b u, t = b :: u ∧ (b = 0x22 ∨ b = 0x5b ∨ b = 0x7b) := by
  cases shape with
  | text =>
    obtain ⟨glyphs, -, rfl⟩ := h
    exact ⟨_, _, rfl, .inl rfl⟩
  | list shape =>
    obtain ⟨items, -, encloses⟩ := h
    cases encloses <;> exact ⟨_, _, rfl, .inr (.inl rfl)⟩
  | table shape | numbered shape =>
    obtain ⟨members, -, texts, -, encloses⟩ := h
    cases encloses <;> exact ⟨_, _, rfl, .inr (.inr rfl)⟩
  | record =>
    obtain ⟨_, _, _, _, _, _, texts, -, encloses⟩ := h
    cases encloses <;> exact ⟨_, _, rfl, .inr (.inr rfl)⟩
  | choice variants => exact variants.begins h
  | boolean | integer | float32 | float64 | optional | tooDeep => exact firm.elim

/-- What is there is read, if it cannot be mistaken for `null`. -/
theorem reads_some {shape : Shape α} {a : α} (firm : shape.Firm) (spells : shape.Spells a t)
    (reads : Reads (shape.read depth) t a) :
    Reads ((Shape.optional shape).read depth) t (some a) := by
  obtain ⟨b, u, eq, begins⟩ := Shape.begins_of_firm firm spells
  obtain ⟨hb, ne⟩ : isBlank b = false ∧ Char.ofUInt8 b ≠ 'n' := by
    rcases begins with rfl | rfl | rfl <;> decide
  refine ⟨reads.solid, fun gap rest blank apart ↦ ?_⟩
  have value := reads.before apart
  rw [eq] at value ⊢
  rw [Shape.read, List.cons_append, bind_ok (start_ok blank hb), if_neg ne, ← List.cons_append,
    bind_ok value]
  rfl

theorem reads_none {shape : Shape α} :
    Reads ((Shape.optional shape).read depth) (bytes "null") none := by
  rw [bytes_null]
  refine ⟨⟨_, _, rfl, by decide, by decide⟩, fun gap rest blank _ ↦ ?_⟩
  rw [Shape.read, List.cons_append, bind_ok (start_ok blank (by decide)), if_pos (by decide)]
  rfl

mutual

/-- **Every spelling of a value is read as the value.** -/
theorem Shape.reads {α : Type} {depth : Nat} :
    (shape : Shape α) → shape.Sound depth → {a : α} → shape.Fits depth a →
      (∀ x ∈ shape.floats a, x.Exact) → {t : List UInt8} → shape.Spells a t →
        Reads (shape.read depth) t a
  | .boolean, _, b, _, _, _, h => by
    subst h
    rw [Shape.read]
    exact reads_boolean b
  | .integer _, lawful, n, _, _, _, h => by
    subst h
    rw [Shape.read]
    exact reads_integer lawful n
  | .float32, _, x, _, exacts, _, h => by
    subst h
    rw [Shape.read]
    obtain ⟨finite, rereads⟩ := exacts (.single x) (by simp [Shape.floats])
    exact reads_float32 finite rereads
  | .float64, _, x, _, exacts, _, h => by
    subst h
    rw [Shape.read]
    obtain ⟨finite, rereads⟩ := exacts (.double x) (by simp [Shape.floats])
    exact reads_float64 finite rereads
  | .text, _, s, _, _, _, h => by
    rw [Shape.read]
    exact reads_text h
  | .optional _, _, none, _, _, _, h => by
    subst h
    exact reads_none
  | .optional shape, sound, some a, fits, exacts, t, h =>
    reads_some sound.1 h (shape.reads sound.2 (fits a rfl) exacts h)
  | .list shape, sound, as, fits, exacts, t, h => by
    obtain ⟨more, fits⟩ := fits
    obtain ⟨items, spells, h⟩ := h
    refine reads_list more (forall₂_imp_of_mem spells fun a ha _ spelled ↦ ?_) h
    exact shape.reads sound (fits a ha) (fun x hx ↦ exacts x (List.mem_flatMap.mpr ⟨a, ha, hx⟩))
      spelled
  | .table shape, sound, tbl, fits, exacts, t, h => by
    obtain ⟨more, nodup, fits⟩ := fits
    obtain ⟨members, spells, h⟩ := h
    refine reads_table more nodup (forall₂_imp_of_mem spells fun e he _ spelled ↦
      ⟨spelled.1, ?_⟩) h
    exact shape.reads sound (fits e he) (fun x hx ↦ exacts x (List.mem_flatMap.mpr ⟨e, he, hx⟩))
      spelled.2
  | .numbered shape, sound, es, fits, exacts, t, h => by
    obtain ⟨more, fits⟩ := fits
    obtain ⟨members, spells, h⟩ := h
    refine reads_numbered more (forall₂_imp_of_mem spells fun e he _ spelled ↦ ⟨spelled.1, ?_⟩) h
    exact shape.reads sound (fits e he) (fun x hx ↦ exacts x (List.mem_flatMap.mpr ⟨e, he, hx⟩))
      spelled.2
  | .record _ fields _, sound, a, fits, exacts, t, h => by
    obtain ⟨whole, -, names, sound⟩ := sound
    obtain ⟨kept, added, members, keeps, foreign, perm, h⟩ := h
    exact reads_record fits.1 (whole a) names keeps
      (fields.reads names sound fits.2 exacts keeps) foreign perm h
  | .choice variants, sound, a, fits, exacts, t, h =>
    (variants.tagged sound.1 sound.2 fits exacts h).reads
  | .tooDeep, _, _, fits, _, _, _ => fits.elim

theorem Fields.reads {α ρ σ : Type} {depth : Nat} :
    (fields : Fields α ρ σ) → fields.names.Nodup → fields.Sound depth → {parts : ρ} →
      fields.Fits depth parts → (∀ x ∈ fields.floats parts, x.Exact) →
        {kept : List (String × List UInt8)} → fields.Keeps parts kept →
          ∀ m ∈ kept, fields.ReadsMember depth parts m.1 m.2
  | .done, _, _, _, _, _, _, keeps => by
    subst keeps
    simp
  | .field name shape default get rest, names, sound, (b, bs), fits, exacts, kept, keeps => by
    obtain ⟨new, names⟩ := List.nodup_cons.mp names
    obtain ⟨soundFirst, -, sound⟩ := sound
    obtain ⟨exactFirst, exactRest⟩ := List.forall_mem_append.mp exacts
    -- a later field is read past this one, whose name differs
    have later : ∀ {others}, rest.Keeps bs others → ∀ m ∈ others,
        Fields.ReadsMember (.field name shape default get rest) depth (b, bs) m.1 m.2 := by
      intro others keeps m hm keys gap gap' tail unread blank blank' apart
      have differs : m.1 ≠ name := fun same ↦
        new (same ▸ keeps.sublist.mem (List.mem_map_of_mem hm))
      rw [Fields.slotsOf, Fields.slotsOf, Fields.readMember, if_neg differs,
        bind_ok (rest.reads names sound fits.2 exactRest keeps m hm keys gap gap' tail unread blank
          blank' apart)]
      simp only [List.mem_cons, differs.symm, false_or]
      rfl
    rcases keeps with ⟨t, others, rfl, spelled, keeps⟩ | ⟨-, keeps⟩
    · refine List.forall_mem_cons.mpr ⟨fun keys gap gap' tail unread blank blank' apart ↦ ?_,
        later keeps⟩
      have value := inside_ok (.member name)
        ((shape.reads soundFirst fits.1 exactFirst spelled).read gap' tail blank' apart)
      rw [Fields.slotsOf, Fields.slotsOf, Fields.readMember, if_pos rfl, if_neg unread,
        if_neg (by simp), bind_ok (colon_ok blank _), bind_ok value,
        rest.slotsOf_cons_of_not_mem bs new, if_pos List.mem_cons_self]
      rfl
    · exact later keeps

/-- A tagged value is read by the first variant that it belongs to. -/
theorem Variants.tagged {α : Type} {depth : Nat} :
    (variants : Variants α) → variants.tags.Nodup → variants.Sound depth → {a : α} →
      variants.Fits depth a → (∀ x ∈ variants.floats a, x.Exact) → {t : List UInt8} →
        variants.Spells a t → variants.Tagged depth a t
  | .done, _, _, _, fits, _, _, _ => fits.elim
  | .bare tag value isValue rest, tags, sound, a, fits, exacts, t, h => by
    obtain ⟨new, tags⟩ := List.nodup_cons.mp tags
    obtain ⟨-, isOnly, -, sound⟩ := sound
    rw [Variants.Spells] at h
    split at h
    · rename_i isThis
      refine .bare tag List.mem_cons_self h fun known i ↦ ?_
      rw [Variants.readBare, if_pos rfl, isOnly a isThis]
      rfl
    · rename_i other
      rw [Variants.floats, if_neg other] at exacts
      refine (rest.tagged tags sound (fits.resolve_left other) exacts h).cons rfl new ?_ ?_
      · exact fun _ _ ne ↦ by rw [Variants.readBare, if_neg ne]
      · exact fun _ _ ne ↦ by rw [Variants.readTagged, if_neg ne]
  | .payload tag shape inject project rest, tags, sound, a, fits, exacts, t, h => by
    obtain ⟨new, tags⟩ := List.nodup_cons.mp tags
    obtain ⟨-, injects, -, soundShape, sound⟩ := sound
    rw [Variants.Spells] at h
    rw [Variants.Fits] at fits
    rw [Variants.floats] at exacts
    cases projects : project a with
    | some b =>
      rw [projects] at h fits exacts
      obtain ⟨payload, spelled, object⟩ := h
      refine .payload tag List.mem_cons_self payload fits.1 object
        fun known gap gap' rest' blank blank' apart ↦ ?_
      have value := inside_ok (.member tag)
        ((shape.reads soundShape fits.2 exacts spelled).read gap' rest' blank' apart)
      rw [Variants.readTagged, if_pos rfl, bind_ok (colon_ok blank _), bind_ok value,
        injects a b projects]
      rfl
    | none =>
      rw [projects] at h fits exacts
      refine (rest.tagged tags sound fits exacts h).cons rfl new ?_ ?_
      · exact fun _ _ ne ↦ by rw [Variants.readBare, if_neg ne]
      · exact fun _ _ ne ↦ by rw [Variants.readTagged, if_neg ne]

end

end IdlLinker.Json
