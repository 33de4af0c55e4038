import IdlLinker.Json.Shape.Reader
import IdlLinker.Proofs.Json.Reader
import IdlLinker.Proofs.Table

/-!
# Values that can be written

Not every value of a type can stand in a document of its shape: documents are nested only so far, a
table from a document has no key twice, and a description that is unrolled to a depth describes no
deeper values. `Shape.Fits` says of a value that it can stand where a certain nesting is left, and
`Shape.Sound` collects what the two directions of a description owe each other.

What is read fits (`Shape.yields_fits`). Here lies what is subtle about defaults: what a record
leaves out takes no room in the document that was read, but it does when the value is written, so a
sound description leaves room for every default wherever it may be left out.
-/

namespace IdlLinker.Json

open Reader

/-! ## Sound descriptions -/

namespace IntegerRange

/-- The integers of a range fit into sixty-four bits, and every value of the type stands for one of
them. -/
structure Lawful {α : Type} (r : IntegerRange α) : Prop where
  least : -(Nat.pow 2 63 : Nat) ≤ r.least
  greatest : r.greatest < (Nat.pow 2 64 : Nat)
  bounds : ∀ a, r.least ≤ r.toInt a ∧ r.toInt a ≤ r.greatest
  ofInt : ∀ a, r.ofInt (r.toInt a) = a

namespace Lawful

variable {α : Type} {r : IntegerRange α}

theorem contains (h : r.Lawful) (a : α) : r.contains (r.toInt a) = true := by
  rw [IntegerRange.contains, Bool.and_eq_true, decide_eq_true_eq, decide_eq_true_eq]
  exact h.bounds a

theorem toInt_lt (h : r.Lawful) (a : α) : r.toInt a < (Nat.pow 2 64 : Nat) :=
  Int.lt_of_le_of_lt (h.bounds a).2 h.greatest

theorem le_toInt (h : r.Lawful) (a : α) : -(Nat.pow 2 63 : Nat) ≤ r.toInt a :=
  Int.le_trans h.least (h.bounds a).1

end Lawful

theorem lawful_int8 : int8.Lawful :=
  ⟨by decide, by decide, fun n ↦ ⟨n.minValue_le_toInt, n.toInt_le⟩, Int8.ofInt_toInt⟩

theorem lawful_int16 : int16.Lawful :=
  ⟨by decide, by decide, fun n ↦ ⟨n.minValue_le_toInt, n.toInt_le⟩, Int16.ofInt_toInt⟩

theorem lawful_int32 : int32.Lawful :=
  ⟨by decide, by decide, fun n ↦ ⟨n.minValue_le_toInt, n.toInt_le⟩, Int32.ofInt_toInt⟩

theorem lawful_int64 : int64.Lawful :=
  ⟨by decide, by decide, fun n ↦ ⟨n.minValue_le_toInt, n.toInt_le⟩, Int64.ofInt_toInt⟩

theorem bounds_natCast {n bound : Nat} (h : n < bound) :
    (0 : Int) ≤ n ∧ (n : Int) ≤ (bound : Int) - 1 := by
  omega

theorem lawful_uint8 : uint8.Lawful :=
  ⟨by decide, by decide, fun n ↦ bounds_natCast n.toNat_lt, fun n ↦ by simp [uint8]⟩

theorem lawful_uint16 : uint16.Lawful :=
  ⟨by decide, by decide, fun n ↦ bounds_natCast n.toNat_lt, fun n ↦ by simp [uint16]⟩

theorem lawful_uint32 : uint32.Lawful :=
  ⟨by decide, by decide, fun n ↦ bounds_natCast n.toNat_lt, fun n ↦ by simp [uint32]⟩

theorem lawful_uint64 : uint64.Lawful :=
  ⟨by decide, by decide, fun n ↦ bounds_natCast n.toNat_lt, fun n ↦ by simp [uint64]⟩

end IntegerRange

/-- Documents of the shape begin with a quote or a bracket, and so never like `null`. -/
def Shape.Firm {α : Type} : Shape α → Prop
  | .text | .list _ | .table _ | .numbered _ | .record .. | .choice _ => True
  | _ => False

@[simp] theorem Shape.firm_text : Shape.text.Firm := trivial

@[simp] theorem Shape.firm_list {α : Type} (shape : Shape α) : (Shape.list shape).Firm := trivial

def Fields.names {α ρ σ : Type} : Fields α ρ σ → List String
  | .done => []
  | .field name _ _ _ rest => name :: rest.names

def Fields.parts {α ρ σ : Type} : Fields α ρ σ → α → ρ
  | .done, _ => ()
  | .field _ _ _ get rest, a => (get a, rest.parts a)

/-- A value belongs to one of the variants. -/
def Variants.Gives {α : Type} : Variants α → α → Prop
  | .done, _ => False
  | .bare _ value _ rest, a => a = value ∨ rest.Gives a
  | .payload _ _ inject _ rest, a => (∃ b, inject b = a) ∨ rest.Gives a

mutual

/-- A value can stand in a document where a nesting is left. -/
def Shape.Fits {α : Type} : Shape α → Nat → α → Prop
  | .boolean, _, _ => True
  | .integer _, _, _ => True
  | .float32, _, _ => True
  | .float64, _, _ => True
  | .text, _, _ => True
  | .optional shape, depth, a => ∀ b ∈ a, shape.Fits depth b
  | .list shape, depth, as => 1 < depth ∧ ∀ a ∈ as, shape.Fits (depth - 1) a
  | .table shape, depth, t =>
    1 < depth ∧ t.keys.Nodup ∧ ∀ e ∈ t.entries, shape.Fits (depth - 1) e.2
  | .numbered shape, depth, es => 1 < depth ∧ ∀ e ∈ es.entries, shape.Fits (depth - 1) e.2
  | .record _ fields _, depth, a => 1 < depth ∧ fields.Fits (depth - 1) (fields.parts a)
  | .choice variants, depth, a => variants.Fits depth a
  | .tooDeep, _, _ => False

/-- The parts of a record can stand there. -/
def Fields.Fits {α ρ σ : Type} : Fields α ρ σ → Nat → ρ → Prop
  | .done, _, _ => True
  | .field _ shape _ _ rest, depth, (b, bs) => shape.Fits depth b ∧ rest.Fits depth bs

/-- The payload of the first variant that a value belongs to can stand there. -/
def Variants.Fits {α : Type} : Variants α → Nat → α → Prop
  | .done, _, _ => False
  | .bare _ _ isValue rest, depth, a => isValue a = true ∨ rest.Fits depth a
  | .payload _ shape _ project rest, depth, a =>
    match project a with
    | some b => 1 < depth ∧ shape.Fits (depth - 1) b
    | none => rest.Fits depth a

end

mutual

/-- A description is sound where a nesting is left: a record is its parts, and its fields have
different names; a value is of one variant, and the tags differ; what is absent cannot be mistaken
for what is there; and there is room for the defaults. -/
def Shape.Sound {α : Type} : Shape α → Nat → Prop
  | .boolean, _ => True
  | .integer range, _ => range.Lawful
  | .float32, _ => True
  | .float64, _ => True
  | .text, _ => True
  | .optional shape, depth => shape.Firm ∧ shape.Sound depth
  | .list shape, depth => shape.Sound (depth - 1)
  | .table shape, depth => shape.Sound (depth - 1)
  | .numbered shape, depth => shape.Sound (depth - 1)
  | .record _ fields build, depth =>
    (∀ a, build (fields.parts a) = a) ∧ (∀ p, fields.parts (build p) = p) ∧ fields.names.Nodup ∧
      fields.Sound (depth - 1)
  | .choice variants, depth => variants.tags.Nodup ∧ variants.Sound depth
  | .tooDeep, _ => True

/-- The fields are sound, and their defaults fit. -/
def Fields.Sound {α ρ σ : Type} : Fields α ρ σ → Nat → Prop
  | .done, _ => True
  | .field _ shape default _ rest, depth =>
    shape.Sound depth ∧ (∀ b ∈ default, shape.Fits depth b) ∧ rest.Sound depth

/-- The variants are sound, and none has the values of a later one. -/
def Variants.Sound {α : Type} : Variants α → Nat → Prop
  | .done, _ => True
  | .bare _ value isValue rest, depth =>
    isValue value = true ∧ (∀ a, isValue a = true → a = value) ∧ ¬rest.Gives value ∧
      rest.Sound depth
  | .payload _ shape inject project rest, depth =>
    (∀ b, project (inject b) = some b) ∧ (∀ a b, project a = some b → inject b = a) ∧
      (∀ b, ¬rest.Gives (inject b)) ∧ shape.Sound (depth - 1) ∧ rest.Sound depth

end

/-! ## Small descriptions -/

section Small

variable {α β ρ σ : Type} {depth : Nat} {name : String} {shape : Shape β} {get : α → β}
  {rest : Fields α ρ σ}

@[simp] theorem Shape.fits_none : (Shape.optional shape).Fits depth none := by
  simp [Shape.Fits]

@[simp] theorem Shape.fits_nil : (Shape.list shape).Fits depth [] ↔ 1 < depth := by
  simp [Shape.Fits]

@[simp] theorem Shape.sound_optional :
    (Shape.optional shape).Sound depth ↔ shape.Firm ∧ shape.Sound depth := by
  simp [Shape.Sound]

@[simp] theorem Fields.sound_required :
    (Fields.required name shape get rest).Sound depth ↔ shape.Sound depth ∧ rest.Sound depth := by
  simp [Fields.Sound]

@[simp] theorem Fields.sound_defaulted {default : β} :
    (Fields.defaulted name shape default get rest).Sound depth ↔
      shape.Sound depth ∧ shape.Fits depth default ∧ rest.Sound depth := by
  simp [Fields.Sound]

end Small

/-! ## Slots -/

/-- What stands in the slots fits. -/
def Fields.Filled {α ρ σ : Type} : Fields α ρ σ → Nat → σ → Prop
  | .done, _, _ => True
  | .field _ shape _ _ rest, depth, (slot, slots) =>
    (∀ b ∈ slot, shape.Fits depth b) ∧ rest.Filled depth slots

theorem Fields.filled_emptySlots {α ρ σ : Type} {depth : Nat} :
    (fields : Fields α ρ σ) → fields.Filled depth fields.emptySlots
  | .done => trivial
  | .field _ _ _ _ rest => ⟨by simp, rest.filled_emptySlots⟩

/-- Slots and defaults that fit make parts that fit. -/
theorem Fields.fits_of_fill {α ρ σ : Type} {depth : Nat} {slots : σ} {parts : ρ} :
    (fields : Fields α ρ σ) → fields.Sound depth → fields.Filled depth slots →
      fields.fill slots = .ok parts → fields.Fits depth parts
  | .done, _, _, _ => trivial
  | .field name shape default get rest, sound, filled, h => by
    obtain ⟨slot, slots⟩ := slots
    obtain ⟨-, defaults, soundRest⟩ := sound
    obtain ⟨first, others⟩ := filled
    rw [Fields.fill] at h
    cases chosen : slot <|> default with
    | none =>
      rw [chosen] at h
      cases h
    | some b =>
      rw [chosen] at h
      cases more : rest.fill slots with
      | error cause =>
        rw [more] at h
        cases h
      | ok bs =>
        rw [more] at h
        cases h
        refine ⟨?_, rest.fits_of_fill soundRest others more⟩
        cases slot with
        | none => exact defaults b chosen
        | some b' => exact first b chosen

/-! ## What loops yield -/

section Loops

variable {α κ σ : Type}

theorem yields_enter (depth : Nat) : Yields (enter depth) fun d ↦ 1 < depth ∧ d = depth - 1 :=
  .ite (fun _ ↦ .fail _) fun more ↦ .after fun _ ↦ .pure ⟨Nat.lt_of_not_le more, rfl⟩

theorem yields_items {item : Reader α} {P : α → Prop} (h : Yields item P) (fuel index : Nat)
    {back : List α} (old : ∀ a ∈ back, P a) :
    Yields (items item fuel index back) fun as ↦ ∀ a ∈ as, P a := by
  induction fuel generalizing index back with
  | zero => exact .fail _
  | succ fuel ih =>
    refine .after fun more ↦ .ite (fun _ ↦ .bind h.inside fun a ha ↦ ?_) fun _ ↦ .after fun _ ↦ ?_
    · exact ih (index + 1) (List.forall_mem_cons.mpr ⟨ha, old⟩)
    · exact .pure fun a ha ↦ old a (List.mem_reverse.mp ha)

theorem yields_members {key : Reader κ} {step : κ → σ → Reader σ} {P : σ → Prop}
    (h : ∀ k s, P s → Yields (step k s) P) (fuel : Nat) (first : Bool) {s : σ} (start : P s) :
    Yields (members key step fuel first s) P := by
  induction fuel generalizing first s with
  | zero => exact .inside (.fail _)
  | succ fuel ih =>
    refine .after fun more ↦ ?_
    cases more with
    | none => exact .after fun _ ↦ .pure start
    | some k => exact .bind (h k s start) fun s' hs' ↦ ih false hs'

end Loops

/-! ## What is read fits -/

mutual

/-- **What is read fits.** -/
theorem Shape.yields_fits {α : Type} {depth : Nat} :
    (shape : Shape α) → shape.Sound depth → Yields (shape.read depth) (shape.Fits depth)
  | .boolean, _ => fun _ _ _ _ ↦ trivial
  | .integer _, _ => fun _ _ _ _ ↦ trivial
  | .float32, _ => fun _ _ _ _ ↦ trivial
  | .float64, _ => fun _ _ _ _ ↦ trivial
  | .text, _ => fun _ _ _ _ ↦ trivial
  | .optional shape, sound => by
    rw [Shape.read]
    refine .after fun c ↦ .ite (fun _ ↦ .after fun _ ↦ .after fun _ ↦ .pure ?_)
      fun _ ↦ .bind (shape.yields_fits sound.2) fun a ha ↦ .pure ?_
    · exact fun b hb ↦ absurd hb (by simp)
    · exact fun b hb ↦ Option.some.inj hb ▸ ha
  | .list shape, sound => by
    rw [Shape.read]
    refine .after fun c ↦ .ite (fun _ ↦ .bind (yields_enter depth) ?_) fun _ ↦ .mismatch _ _
    rintro d ⟨more, rfl⟩
    exact .after fun fuel ↦ (yields_items (shape.yields_fits sound) fuel 0 (by simp)).weaken
      fun as fit ↦ ⟨more, fit⟩
  | .table shape, sound => by
    rw [Shape.read]
    refine .after fun c ↦ .ite (fun _ ↦ .bind (yields_enter depth) ?_) fun _ ↦ .mismatch _ _
    rintro d ⟨more, rfl⟩
    refine .after fun fuel ↦ (yields_members (P := fun t ↦ t.keys.Nodup ∧
      ∀ e ∈ t.entries, shape.Fits (depth - 1) e.2) ?_ fuel true ?_).weaken fun t fit ↦ ⟨more, fit⟩
    · rintro k t ⟨nodup, fit⟩
      refine .after fun _ ↦ .bind (shape.yields_fits sound).inside fun a ha ↦ .pure ?_
      refine ⟨Table.nodup_keys_insert k a nodup, fun e he ↦ ?_⟩
      rcases Table.mem_entries_insert he with rfl | he
      · exact ha
      · exact fit e he
    · exact ⟨List.nodup_nil, by simp [Table.empty]⟩
  | .numbered shape, sound => by
    rw [Shape.read]
    refine .after fun c ↦ .ite (fun _ ↦ .bind (yields_enter depth) ?_) fun _ ↦ .mismatch _ _
    rintro d ⟨more, rfl⟩
    refine .after fun fuel ↦ (yields_members (P := fun es ↦
      ∀ e ∈ es.entries, shape.Fits (depth - 1) e.2) ?_ fuel true ?_).weaken fun t fit ↦ ⟨more, fit⟩
    · intro k es fit
      refine .after fun k ↦ .after fun _ ↦
        .bind (shape.yields_fits sound).inside fun a ha ↦ .pure ?_
      intro e he
      rcases Numbered.mem_store he with rfl | he
      · exact ha
      · exact fit e he
    · simp [Numbered.empty]
  | .record name fields build, sound => by
    obtain ⟨-, parts, -, sound⟩ := sound
    rw [Shape.read]
    refine .after fun c ↦ .ite (fun _ ↦ .bind (yields_enter depth) ?_) fun _ ↦
      .ite (fun _ ↦ .bind (yields_enter depth) ?_) fun _ ↦ .mismatch _ _
    · rintro d ⟨more, rfl⟩
      refine .after fun fuel ↦ .bind (yields_members
        (fun k slots ↦ fields.yields_filled sound k) fuel true fields.filled_emptySlots) ?_
      intro slots filled
      cases h : fields.fill slots with
      | error cause => exact .fail _
      | ok p =>
        refine .pure ⟨more, ?_⟩
        rw [parts]
        exact fields.fits_of_fill sound filled h
    · rintro d ⟨more, rfl⟩
      refine .bind (fields.yields_items_fits sound name fields.count 0) fun p fit ↦
        .after fun _ ↦ .pure ⟨more, ?_⟩
      rwa [parts]
  | .choice variants, sound => by
    rw [Shape.read]
    refine .after fun c ↦ .ite (fun _ ↦ .bind (yields_enter depth) ?_) fun _ ↦
      .ite (fun _ ↦ .after fun _ ↦ .after fun tag ↦ ?_) fun _ ↦ .fail _
    · rintro d ⟨more, rfl⟩
      refine .after fun tag ↦ .bind (variants.yields_tagged sound.2 more variants.tags tag)
        fun a fit ↦ .after fun _ ↦ .pure fit.1
    · exact (variants.yields_bare sound.2 variants.tags tag).weaken fun a fit ↦ fit.1
  | .tooDeep, _ => .fail _

theorem Fields.yields_filled {α ρ σ : Type} {depth : Nat} {slots : σ} :
    (fields : Fields α ρ σ) → fields.Sound depth → (key : String) → fields.Filled depth slots →
      Yields (fields.readMember depth key slots) (fields.Filled depth)
  | .done, _, key, _ => fun _ _ _ _ ↦ trivial
  | .field name shape default get rest, sound, key, filled => by
    obtain ⟨slot, slots⟩ := slots
    rw [Fields.readMember]
    refine .ite (fun _ ↦ .ite (fun _ ↦ .fail _) fun _ ↦ .after fun _ ↦
      .bind (shape.yields_fits sound.1).inside fun b hb ↦ .pure ⟨?_, filled.2⟩) fun _ ↦
      .bind (rest.yields_filled sound.2.2 key filled.2) fun slots' h ↦ .pure ⟨filled.1, h⟩
    exact fun b' hb' ↦ Option.some.inj hb' ▸ hb

theorem Fields.yields_items_fits {α ρ σ : Type} {depth : Nat} :
    (fields : Fields α ρ σ) → fields.Sound depth → (name : String) → (count index : Nat) →
      Yields (fields.readItems name count depth index) (fields.Fits depth)
  | .done, _, _, _, _ => fun _ _ _ _ ↦ trivial
  | .field _ shape default _ rest, sound, name, count, index => by
    rw [Fields.readItems]
    have others {b} (hb : shape.Fits depth b) :
        Yields (do return (b, ← rest.readItems name count depth (index + 1)))
          fun p ↦ shape.Fits depth p.1 ∧ rest.Fits depth p.2 :=
      .bind (rest.yields_items_fits sound.2.2 name count (index + 1)) fun bs hbs ↦ .pure ⟨hb, hbs⟩
    refine .after fun more ↦ .ite (fun _ ↦ ?_) fun _ ↦ ?_
    · exact .bind (shape.yields_fits sound.1).inside fun b hb ↦ others hb
    · cases default with
      | none => exact .fail _
      | some b => exact others (sound.2.1 b rfl)

/-- A tagged value fits, and it belongs to one of the variants. -/
theorem Variants.yields_tagged {α : Type} {depth : Nat} :
    (variants : Variants α) → variants.Sound depth → 1 < depth → (known : List String) →
      (tag : String) → Yields (variants.readTagged known (depth - 1) tag)
        fun a ↦ variants.Fits depth a ∧ variants.Gives a
  | .done, _, _, _, _ => .fail _
  | .bare tag' value isValue rest, sound, more, known, tag => by
    obtain ⟨is, -, unclaimed, sound⟩ := sound
    rw [Variants.readTagged]
    refine .ite (fun _ ↦ .after fun _ ↦ .after fun _ ↦ .pure ⟨Or.inl is, Or.inl rfl⟩) fun _ ↦
      (rest.yields_tagged sound more known tag).weaken fun a h ↦ ⟨Or.inr h.1, Or.inr h.2⟩
  | .payload tag' shape inject project rest, sound, more, known, tag => by
    obtain ⟨projects, injects, unclaimed, soundShape, sound⟩ := sound
    rw [Variants.readTagged]
    refine .ite (fun _ ↦ .after fun _ ↦ .bind (shape.yields_fits soundShape).inside fun b hb ↦
      .pure ⟨?_, Or.inl ⟨b, rfl⟩⟩) fun _ ↦
      (rest.yields_tagged sound more known tag).weaken fun a h ↦ ⟨?_, Or.inr h.2⟩
    · rw [Variants.Fits, projects]
      exact ⟨more, hb⟩
    · rw [Variants.Fits]
      cases p : project a with
      | none => exact h.1
      | some b => exact absurd h.2 (injects a b p ▸ unclaimed b)

theorem Variants.yields_bare {α : Type} {depth : Nat} :
    (variants : Variants α) → variants.Sound depth → (known : List String) →
      (tag : String) → Yields (variants.readBare known tag)
        fun a ↦ variants.Fits depth a ∧ variants.Gives a
  | .done, _, _, _ => .fail _
  | .bare tag' value isValue rest, sound, known, tag => by
    obtain ⟨is, -, unclaimed, sound⟩ := sound
    rw [Variants.readBare]
    exact .ite (fun _ ↦ .pure ⟨Or.inl is, Or.inl rfl⟩) fun _ ↦
      (rest.yields_bare sound known tag).weaken fun a h ↦ ⟨Or.inr h.1, Or.inr h.2⟩
  | .payload tag' shape inject project rest, sound, known, tag => by
    obtain ⟨projects, injects, unclaimed, soundShape, sound⟩ := sound
    rw [Variants.readBare]
    refine .ite (fun _ ↦ .inside (.fail _)) fun _ ↦
      (rest.yields_bare sound known tag).weaken fun a h ↦ ⟨?_, Or.inr h.2⟩
    rw [Variants.Fits]
    cases p : project a with
    | none => exact h.1
    | some b => exact absurd h.2 (injects a b p ▸ unclaimed b)

end

end IdlLinker.Json
