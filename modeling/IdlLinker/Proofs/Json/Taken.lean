import IdlLinker.Proofs.Json.Enclosed
import IdlLinker.Proofs.Json.Recover

/-!
# What a shape takes

Whatever its shape, what is read is one value (`Shape.takesValues`): a reader that is done left the
input right after a value, and would have done the same with anything else there.

No description has to be sound for this. A list of the parts of a record may end early, when what
is left out has defaults, and a key that is a number is left before its quote; but either way the
brackets and the quotes are closed by the same reader that opened them, and so the text is a value.

The proof goes by recursion on the description, like reading itself, and each case says what the
reader does at the first byte of its value (`TakesAt`) and how it goes on to the last one
(`Completes`). It uses none of the rules for texts of the grammar: there the text is given and the
reader is run, here the run is given and the text is found.
-/

namespace IdlLinker.Json

open Decimal Reader

variable {α β : Type} {i j t u gap gap' : List UInt8} {b : UInt8} {depth : Nat}

namespace Reader

/-! ## Words -/

theorem takesAt_of_mismatch {k : Char → Reader α} (expected : String) (c : Char)
    (same : k (Char.ofUInt8 b) = mismatch expected c) : TakesAt k b :=
  .of_yields (same ▸ .mismatch expected c)

theorem completes_keyword (bs : List UInt8) (value : IsValue (b :: bs)) :
    Completes b (keyword (bs.map Char.ofUInt8)) := by
  rintro i ⟨⟩ j h
  refine ⟨bs, value, of_keyword_eq_ok bs h, fun rest ↦ ?_⟩
  clear h value
  induction bs with
  | nil => rfl
  | cons b bs ih =>
    rw [List.map_cons, keyword, List.cons_append, bind_ok (peek_cons _ _)]
    simp only [↓reduceIte]
    exact ih

theorem takesValues_expectNumber (expected : String) : TakesValues (expectNumber expected) := by
  refine takesValues_start fun b solid ↦ ?_
  by_cases starts : Char.ofUInt8 b = '-' ∨ isDigit (Char.ofUInt8 b)
  · intro i n j h
    dsimp only at h
    rw [if_pos starts] at h
    obtain ⟨minus, whole, fraction, power, parts, value⟩ := of_number_eq_ok h
    obtain ⟨t, text, same⟩ := parts.exists_text
    refine ⟨t, ⟨.number text, fun gap rest blank ends ↦ ?_⟩, fun _ ↦ ?_, same⟩
    · have read := (ends.number_ok text).trans (value rest)
      obtain ⟨b, u, rfl, solid, starts⟩ := text.start
      rw [List.cons_append, bind_ok (start_ok blank solid), if_pos starts]
      exact read
    · rw [← same]
      exact skipNumber_of_number h
  · exact takesAt_of_mismatch _ _ (if_neg starts)

theorem takesValues_integer (range : IntegerRange α) : TakesValues (integer range) := by
  refine (takesValues_expectNumber range.name).bind fun n ↦ ?_
  cases n with
  | integer n => exact .ite (.pure _) (.fail _)
  | float x => exact .fail _

theorem takesValues_floating (f : Format) (expected : String) :
    TakesValues (floating f expected) := by
  refine (takesValues_expectNumber expected).bind fun n ↦ ?_
  cases n <;> exact .pure _

theorem takesValues_boolean (expected : String) : TakesValues (Reader.boolean expected) := by
  refine takesValues_start fun b solid ↦ ?_
  by_cases isTrue : b = 0x74
  · subst isTrue
    exact ((completes_keyword [0x72, 0x75, 0x65] isValue_true).bind fun _ ↦ .pure true).takesAt
      solid rfl fun i ↦ rfl
  by_cases isFalse : b = 0x66
  · subst isFalse
    exact ((completes_keyword [0x61, 0x6c, 0x73, 0x65] isValue_false).bind
      fun _ ↦ .pure false).takesAt solid rfl fun i ↦ rfl
  refine takesAt_of_mismatch expected (Char.ofUInt8 b) ?_
  split
  · rename_i same
    exact absurd (ofUInt8_inj.mp same) isTrue
  · rename_i same
    exact absurd (ofUInt8_inj.mp same) isFalse
  · rfl

theorem takesValues_text (expected : String) : TakesValues (Reader.text expected) := by
  refine takesValues_start fun b solid ↦ ?_
  by_cases isQuote : Char.ofUInt8 b = '"'
  · obtain rfl : b = 0x22 := ofUInt8_inj.mp isQuote
    exact completes_string.takesAt solid rfl fun i ↦ rfl
  · exact takesAt_of_mismatch _ _ (if_neg isQuote)

theorem takesValues_null (expected : String) : TakesValues (Reader.null expected) := by
  refine takesValues_start fun b solid ↦ ?_
  by_cases isNull : Char.ofUInt8 b = 'n'
  · obtain rfl : b = 0x6e := ofUInt8_inj.mp isNull
    exact (completes_keyword [0x75, 0x6c, 0x6c] isValue_null).takesAt solid rfl fun i ↦ rfl
  · exact takesAt_of_mismatch _ _ (if_neg isNull)

theorem takesValues_skip : TakesValues skip := by
  rintro i ⟨⟩ j h
  obtain ⟨gap, t, blank, value, ends, rfl⟩ := of_skip_eq_ok h
  exact ⟨gap, t, blank, ⟨value, fun _ _ blank ends ↦ value.skip_ok ends blank⟩, ends, rfl⟩

/-! ## Brackets -/

theorem Completes.takesAt_enter {k : Char → Reader α} {f : Nat → Reader α}
    (h : Completes b (f (depth - 1))) (solid : isBlank b = false)
    (other : (Char.ofUInt8 b == '-' || isDigit (Char.ofUInt8 b)) = false)
    (same : k (Char.ofUInt8 b) = enter depth >>= f) : TakesAt k b := by
  by_cases more : 1 < depth
  · exact h.takesAt solid other fun i ↦ by rw [same, bind_ok (enter_ok more)]
  · refine .of_yields ?_
    rw [same, enter, if_pos (Nat.not_lt.mp more)]
    exact .bind (P := fun _ ↦ False) (.fail _) fun _ no ↦ no.elim

theorem TakesValues.takesAt {r : Reader α} {k : Char → Reader α} (h : TakesValues r)
    (solid : isBlank b = false) (same : k (Char.ofUInt8 b) = r) : TakesAt k b := by
  intro i a j read
  rw [same] at read
  obtain ⟨gap, t, blank, takes, ends, eq⟩ := h _ a j read
  -- No blanks come before a first byte that is not blank.
  obtain ⟨b', u, rfl, -⟩ := takes.reads.solid
  obtain rfl := blank.eq_nil eq solid
  obtain ⟨rfl, rfl⟩ := List.cons.inj eq
  refine ⟨b :: u, ⟨takes.value, fun gap rest blank ends ↦ ?_⟩, ends, rfl⟩
  rw [List.cons_append, bind_ok (start_ok blank solid), same]
  exact takes.read [] rest .nil ends

/-- Where `null` may stand for what is absent. -/
theorem TakesValues.optional {shape : Shape α} (h : TakesValues (shape.read depth)) :
    TakesValues ((Shape.optional shape).read depth) := by
  rw [Shape.read]
  refine takesValues_start fun b solid ↦ ?_
  by_cases isNull : Char.ofUInt8 b = 'n'
  · obtain rfl : b = 0x6e := ofUInt8_inj.mp isNull
    exact ((completes_keyword [0x75, 0x6c, 0x6c] isValue_null).bind fun _ ↦ .pure none).takesAt
      solid rfl fun i ↦ rfl
  · exact (h.bind fun a ↦ .pure (some a)).takesAt solid (if_neg isNull)

theorem TakesValues.list {shape : Shape α} (h : TakesValues (shape.read (depth - 1))) :
    TakesValues ((Shape.list shape).read depth) := by
  rw [Shape.read]
  refine takesValues_start fun b solid ↦ ?_
  by_cases isBracket : Char.ofUInt8 b = '['
  · obtain rfl : b = 0x5b := ofUInt8_inj.mp isBracket
    exact Completes.takesAt_enter (completes_items h) solid rfl rfl
  · exact takesAt_of_mismatch _ _ (if_neg isBracket)

theorem TakesValues.table {shape : Shape α} (h : TakesValues (shape.read (depth - 1))) :
    TakesValues ((Shape.table shape).read depth) := by
  rw [Shape.read]
  refine takesValues_start fun b solid ↦ ?_
  by_cases isBracket : Char.ofUInt8 b = '\x7b'
  · obtain rfl : b = 0x7b := ofUInt8_inj.mp isBracket
    refine Completes.takesAt_enter
      (completes_members (takesMembers_string fun key t ↦ ?_) _) solid rfl rfl
    exact (h.inside.bind fun a ↦ .pure (t.insert key a)).rest
  · exact takesAt_of_mismatch _ _ (if_neg isBracket)

/-! ## Keys that are numbers -/

theorem plain_of_digit {b : UInt8} (h : isDigit (Char.ofUInt8 b) = true) : Plain b := by
  refine ⟨?_, fun eq ↦ ?_, fun eq ↦ ?_⟩
  · rw [isDigit_eq, Char.isDigit_iff_toNat] at h
    exact Nat.le_trans (by decide) h.1
  · rw [eq] at h
    exact absurd h (by decide)
  · rw [eq] at h
    exact absurd h (by decide)

end Reader

theorem NumberText.plain {minus : Bool} {whole : List UInt8} {fraction : Option (List UInt8)}
    {power : Option Int} (h : NumberText minus whole fraction power t) : ∀ b ∈ t, Plain b := by
  obtain @⟨f, e, digits, -, after, last⟩ := h
  have plains {ds : List UInt8} (h : Digits ds) : ∀ b ∈ ds, Plain b :=
    fun b hb ↦ plain_of_digit (h.2 b hb)
  have marks {mark : UInt8} (h : mark = 0x65 ∨ mark = 0x45) : Plain mark := by
    rcases h with rfl | rfl <;> exact ⟨by decide, by decide, by decide⟩
  have signs : ∀ b ∈ [0x2b, 0x2d, 0x2e], Plain b := by
    intro b hb
    simp only [List.mem_cons, List.not_mem_nil, or_false] at hb
    rcases hb with rfl | rfl | rfl <;> exact ⟨by decide, by decide, by decide⟩
  simp only [List.forall_mem_append]
  refine ⟨?_, plains digits, ?_, ?_⟩
  · cases minus <;> simp [signs]
  · cases after with
    | absent => simp
    | digits ds => simpa [signs] using plains ds
  · cases last with
    | absent => simp
    | plain hm ds => simpa [marks hm] using plains ds
    | plus hm ds => simpa [marks hm, signs] using plains ds
    | minus hm ds => simpa [marks hm, signs] using plains ds

/-- A number is a quotation when a quote follows. -/
theorem NumberText.isQuotation {minus : Bool} {whole : List UInt8}
    {fraction : Option (List UInt8)} {power : Option Int}
    (h : NumberText minus whole fraction power t) : IsQuotation (t ++ [0x22]) :=
  .plains h.plain .close

namespace Reader

theorem of_numberKey_eq_ok {expected : String} {n : Int} (h : numberKey expected i = .ok (n, j)) :
    ∃ minus whole fraction power t, NumberText minus whole fraction power t ∧ i = t ++ j ∧
      ∀ rest, Apart rest → numberKey expected (t ++ rest) = .ok (n, rest) := by
  rw [numberKey, peek_bind] at h
  rcases i with - | ⟨b, i⟩
  · cases h
  simp only [List.head?_cons, Option.map_some] at h
  split at h
  · replace h := bind_eq_ok.mp h
    obtain ⟨m, i', read, h⟩ := h
    obtain ⟨minus, whole, fraction, power, parts, value⟩ := of_number_eq_ok read
    obtain ⟨t, text, same⟩ := parts.exists_text
    cases m with
    | float x => cases h
    | integer m =>
      obtain ⟨rfl, rfl⟩ := pure_eq_ok.mp h
      refine ⟨minus, whole, fraction, power, t, text, same, fun rest apart ↦ ?_⟩
      have again := (number_ok text apart).trans (value rest)
      obtain ⟨b', u, rfl, -, starts⟩ := text.start
      rw [List.cons_append, numberKey, bind_ok (peek_cons _ _)]
      dsimp only
      rw [if_pos starts, ← List.cons_append, bind_ok again]
      rfl
  · cases h

/-- A member whose key is a number: the quote is taken after the number was found in range. -/
theorem takesMembers_numbered {r : Reader α} (h : TakesValues r) :
    TakesMembers (numberKey "u32") fun (key : Int) (es : Numbered α) ↦ do
      let segment := Segment.member (toString key)
      let k ← inside segment do
        let k ← inRange .uint32 key
        if ← take? '"' then return k else fail .expectedQuote
      colon
      return es.insert k (← inside segment r) := by
  intro n es es' i i' j readKey readRest
  obtain ⟨_, _, _, _, t, text, rfl, readsKey⟩ := of_numberKey_eq_ok readKey
  obtain ⟨k, i₁, closed, readValue⟩ := bind_eq_ok.mp readRest
  obtain ⟨k', i₂, ranged, quote⟩ := bind_eq_ok.mp (inside_eq_ok.mp closed)
  have idle : Idle (inRange .uint32 n) := .ite (.pure _) (.fail _)
  -- Whether a key is in range is not seen on the input, so it may be asked before the quote.
  obtain rfl := idle.rest_eq ranged
  obtain ⟨isQuote, i₃, taken, last⟩ := bind_eq_ok.mp quote
  cases isQuote with
  | false => cases last
  | true =>
    obtain ⟨rfl, rfl⟩ := pure_eq_ok.mp last
    obtain ⟨b, isQuote, rfl⟩ := of_take?_eq_ok_true taken
    obtain rfl : b = 0x22 := ofUInt8_inj.mp isQuote
    have others : TakesValues (do return es.insert k' (← inside (.member (toString n)) r)) :=
      h.inside.bind fun a ↦ .pure (es.insert k' a)
    obtain ⟨gap, gap', v, blank, blank', value, rfl, reads⟩ := others.rest _ _ _ readValue
    refine ⟨t ++ 0x22 :: (gap ++ 0x3a :: (gap' ++ v)),
      ⟨0x22 :: (t ++ [0x22]), v, ⟨_, text.isQuotation, rfl⟩, value, ?_⟩,
      ⟨_, rfl, fun rest apart ↦ ⟨n, 0x22 :: (gap ++ 0x3a :: (gap' ++ (v ++ rest))), ?_, ?_⟩⟩,
      by simp⟩
    · have member : Member (0x22 :: (t ++ [0x22]), v) _ := .mk blank blank'
      simpa using member
    · have apart' : Apart (0x22 :: (gap ++ 0x3a :: (gap' ++ (v ++ rest)))) := by
        rintro b ⟨⟩
        decide
      simpa using readsKey _ apart'
    · have found := idle _ _ _ ranged (0x22 :: (gap ++ 0x3a :: (gap' ++ (v ++ rest))))
      have quote : take? '"' (0x22 :: (gap ++ 0x3a :: (gap' ++ (v ++ rest)))) =
          .ok (true, gap ++ 0x3a :: (gap' ++ (v ++ rest))) := take?_of_eq rfl
      refine (bind_ok (inside_ok _ ((bind_ok found).trans (bind_ok quote)))).trans ?_
      exact reads rest apart

theorem TakesValues.numbered {shape : Shape α} (h : TakesValues (shape.read (depth - 1))) :
    TakesValues ((Shape.numbered shape).read depth) := by
  rw [Shape.read]
  refine takesValues_start fun b solid ↦ ?_
  by_cases isBracket : Char.ofUInt8 b = '\x7b'
  · obtain rfl : b = 0x7b := ofUInt8_inj.mp isBracket
    exact Completes.takesAt_enter (completes_members (takesMembers_numbered h) _) solid rfl rfl
  · exact takesAt_of_mismatch _ _ (if_neg isBracket)

/-! ## Tagged values -/

theorem of_tagKey_eq_ok {tag : String} (h : tagKey i = .ok (tag, j)) :
    ∃ gap u, Blank gap ∧ IsQuotation u ∧ i = gap ++ 0x22 :: (u ++ j) ∧
      ∀ rest, tagKey (gap ++ 0x22 :: (u ++ rest)) = .ok (tag, rest) := by
  rw [tagKey] at h
  replace h := bind_eq_ok.mp h
  obtain ⟨c?, i', found, h⟩ := h
  split at h
  · cases h
  · obtain ⟨gap, i, blank, rfl, rfl⟩ := of_next_eq_ok_byte 0x22 found
    rw [advance_bind] at h
    obtain ⟨u, quotation, rfl, always⟩ := of_string_eq_ok h
    refine ⟨gap, u, blank, quotation, rfl, fun rest ↦ ?_⟩
    have quote : next (gap ++ 0x22 :: (u ++ rest)) = .ok (some '"', 0x22 :: (u ++ rest)) :=
      next_ok blank (by decide)
    rw [tagKey, bind_ok quote]
    exact (bind_ok (advance_cons _ _)).trans (always rest)
  · cases h
  · cases h

theorem of_closeTagged_eq_ok (h : closeTagged i = .ok ((), j)) :
    ∃ gap, Blank gap ∧ i = gap ++ 0x7d :: j := by
  rw [closeTagged] at h
  replace h := bind_eq_ok.mp h
  obtain ⟨c?, i', found, h⟩ := h
  split at h
  · cases h
  · obtain ⟨gap, i, blank, rfl, rfl⟩ := of_next_eq_ok_byte 0x7d found
    cases h
    exact ⟨gap, blank, rfl⟩
  · cases h

/-- A tag and its payload are the rest of an object with one member. -/
theorem completes_tagged {payload : String → Reader α} (h : ∀ tag, TakesRest (payload tag)) :
    Completes 0x7b (do
      let tag ← tagKey
      let a ← payload tag
      closeTagged
      return a) := by
  intro i a j read
  obtain ⟨tag, i₁, readTag, read₁⟩ := bind_eq_ok.mp read
  obtain ⟨a', i₂, readPayload, read₂⟩ := bind_eq_ok.mp read₁
  obtain ⟨⟨⟩, i₃, close, last⟩ := bind_eq_ok.mp read₂
  obtain ⟨rfl, rfl⟩ := pure_eq_ok.mp last
  obtain ⟨gap₁, u, blank₁, quotation, rfl, readsTag⟩ := of_tagKey_eq_ok readTag
  obtain ⟨gap₂, gap₃, t, blank₂, blank₃, value, rfl, readsPayload⟩ := h tag i₁ a' i₂ readPayload
  obtain ⟨gap₄, blank₄, rfl⟩ := of_closeTagged_eq_ok close
  have entry : IsEntry (0x22 :: u ++ (gap₂ ++ 0x3a :: (gap₃ ++ t))) :=
    ⟨_, t, ⟨u, quotation, rfl⟩, value, .mk blank₂ blank₃⟩
  have closes : Continues 0x7d [] (gap₄ ++ [0x7d]) := .stop blank₄
  refine ⟨_, Bracket.object.isValue (.parts blank₁ closes) (List.forall_mem_singleton.mpr entry),
    by simp, fun rest ↦ ?_⟩
  -- What closes the object ends the payload, should that be a number.
  have apart := closes.apart (.inr rfl) rest
  simp only [List.append_assoc, List.cons_append, List.nil_append] at apart ⊢
  rw [bind_ok (readsTag _), bind_ok (readsPayload _ apart), bind_ok (closeTagged_ok blank₄)]
  rfl

end Reader

/-! ## Records -/

theorem of_closeList_eq_ok (h : closeList i = .ok ((), j)) :
    ∃ gap, Blank gap ∧ i = gap ++ 0x5d :: j := by
  rw [closeList] at h
  replace h := bind_eq_ok.mp h
  obtain ⟨c?, i', found, h⟩ := h
  split at h
  · cases h
  · obtain ⟨gap, i, blank, rfl, rfl⟩ := of_next_eq_ok_byte 0x5d found
    cases h
    exact ⟨gap, blank, rfl⟩
  · replace h := bind_eq_ok.mp h
    obtain ⟨⟨⟩, i₁, -, h⟩ := h
    replace h := bind_eq_ok.mp h
    obtain ⟨c?, i₂, -, h⟩ := h
    split at h <;> cases h
  · cases h

theorem closeList_ok (blank : Blank gap) (rest : List UInt8) :
    closeList (gap ++ 0x5d :: rest) = .ok ((), rest) := by
  rw [closeList, bind_ok (next_ok blank (by decide))]
  rfl

theorem Continues.eq_close {parts : List (List UInt8)} (h : Continues 0x5d parts u)
    (same : 0x5d :: i = u ++ j) : u = [0x5d] ∧ i = j := by
  cases h with
  | stop blank =>
    rw [List.append_assoc] at same
    obtain rfl := blank.eq_nil same (by decide)
    exact ⟨rfl, (List.cons.inj same).2⟩
  | more blank =>
    rw [List.append_assoc] at same
    obtain rfl := blank.eq_nil same (by decide)
    cases same

/-- The parts of a record are values. -/
def Fields.TakesParts {α ρ σ : Type} : Fields α ρ σ → Nat → Prop
  | .done, _ => True
  | .field _ shape _ _ rest, depth => TakesValues (shape.read depth) ∧ rest.TakesParts depth

/-- Parts are read from a list up to its end, the first of them at `index`. -/
def Fields.ReadsToEnd {α ρ σ : Type} (fields : Fields α ρ σ) (name : String)
    (count depth index : Nat) (i : List UInt8) (parts : ρ) (j : List UInt8) : Prop :=
  ∃ k, fields.readItems name count depth index i = .ok (parts, k) ∧ closeList k = .ok ((), j)

/-- A part is read from the next item, or the list ends and it is the default. -/
theorem Fields.readsToEnd_field {α β ρ σ : Type} {name : String} {shape : Shape β}
    {default : Option β} {get : α → β} {rest : Fields α ρ σ} {name' : String}
    {count depth index : Nat} {part : β} {parts : ρ} :
    (Fields.field name shape default get rest).ReadsToEnd name' count depth index i
        (part, parts) j ↔
      ∃ more i₁ i₂, nextItem (index = 0) i = .ok (more, i₁) ∧
        (if more = true then shape.read depth i₁ = .ok (part, i₂)
          else default = some part ∧ i₁ = i₂) ∧
        rest.ReadsToEnd name' count depth (index + 1) i₂ parts j := by
  constructor
  · rintro ⟨k, read, close⟩
    rw [Fields.readItems] at read
    obtain ⟨more, i₁, found, item⟩ := bind_eq_ok.mp read
    cases more with
    | true =>
      obtain ⟨b, i₂, first, later⟩ := bind_eq_ok.mp item
      obtain ⟨bs, i₃, others, last⟩ := bind_eq_ok.mp later
      cases last
      exact ⟨true, i₁, i₂, found, inside_eq_ok.mp first, k, others, close⟩
    | false =>
      cases default with
      | none => cases item
      | some b =>
        obtain ⟨bs, i₃, others, last⟩ := bind_eq_ok.mp item
        cases last
        exact ⟨false, i₁, i₁, found, ⟨rfl, rfl⟩, k, others, close⟩
  · rintro ⟨more, i₁, i₂, found, item, k, others, close⟩
    refine ⟨k, ?_, close⟩
    rw [Fields.readItems, bind_ok found]
    cases more with
    | true => exact (bind_ok (inside_ok _ item)).trans (bind_ok others)
    | false =>
      obtain ⟨rfl, rfl⟩ := item
      exact bind_ok others

/-- What is taken after the first part, up to the end of the list. -/
theorem Fields.of_readsToEnd {α ρ σ : Type} {name : String} {count index : Nat} {parts : ρ}
    {i : List UInt8} : (fields : Fields α ρ σ) → fields.TakesParts depth → index ≠ 0 →
      fields.ReadsToEnd name count depth index i parts j →
        ∃ texts u, Continues 0x5d texts u ∧ (∀ t ∈ texts, IsValue t) ∧ i = u ++ j ∧
          ∀ rest, fields.ReadsToEnd name count depth index (u ++ rest) parts rest
  | .done, _, _, ⟨k, read, close⟩ => by
    obtain ⟨-, rfl⟩ := pure_eq_ok.mp read
    obtain ⟨gap, blank, rfl⟩ := of_closeList_eq_ok close
    refine ⟨[], gap ++ [0x5d], .stop blank, by simp, by simp, fun rest ↦ ⟨_, rfl, ?_⟩⟩
    simpa using closeList_ok blank rest
  | .field _ shape default _ rest, takes, later, read => by
    obtain ⟨part, parts⟩ := parts
    obtain ⟨more, i₁, i₂, found, item, others⟩ := Fields.readsToEnd_field.mp read
    obtain ⟨texts, u, continues, values, rfl, reads⟩ :=
      rest.of_readsToEnd takes.2 (Nat.succ_ne_zero index) others
    rw [decide_eq_false later] at found
    cases more with
    | true =>
      obtain ⟨gap, gap₁, blank, blank₁, rfl⟩ := of_nextItem_more found
      obtain ⟨gap₂, t, blank₂, taken, -, rfl⟩ := takes.1 i₁ part _ item
      refine ⟨t :: texts, _, .more blank (blank₁.append blank₂) continues,
        List.forall_mem_cons.mpr ⟨taken.value, values⟩, by simp, fun after ↦
        Fields.readsToEnd_field.mpr ⟨true, t ++ (u ++ after), u ++ after, ?_, ?_, reads after⟩⟩
      · rw [decide_eq_false later]
        simpa using nextItem_more blank (blank₁.append blank₂) taken.reads.solid (u ++ after)
      · exact taken.reads.before (continues.apart (.inl rfl) after)
    | false =>
      -- The list has ended, so all further parts are defaults and took nothing.
      obtain ⟨isDefault, rfl⟩ := item
      obtain ⟨gap, v, blank, same, rfl⟩ := of_nextItem_eq_ok_false found
      obtain ⟨rfl, rfl⟩ := continues.eq_close same.symm
      refine ⟨[], gap ++ [0x5d], .stop blank, by simp, by simp, fun after ↦
        Fields.readsToEnd_field.mpr ⟨false, 0x5d :: after, _, ?_, ⟨isDefault, rfl⟩, reads after⟩⟩
      rw [decide_eq_false later]
      simpa using nextItem_close blank after

/-- **The parts of a record in a list are the rest of the list**, also where it ends early. -/
theorem Fields.exists_list_of_readsToEnd {α ρ σ : Type} {name : String} {count : Nat} {parts : ρ}
    {fields : Fields α ρ σ} (takes : fields.TakesParts depth)
    (read : fields.ReadsToEnd name count depth 0 i parts j) :
    ∃ u, IsValue (0x5b :: u) ∧ i = u ++ j ∧
      ∀ rest, fields.ReadsToEnd name count depth 0 (u ++ rest) parts rest := by
  cases fields with
  | done =>
    obtain ⟨k, read, close⟩ := read
    obtain ⟨-, rfl⟩ := pure_eq_ok.mp read
    obtain ⟨gap, blank, rfl⟩ := of_closeList_eq_ok close
    refine ⟨gap ++ [0x5d], .list (by simp) (.empty blank), by simp, fun rest ↦ ⟨_, rfl, ?_⟩⟩
    simpa using closeList_ok blank rest
  | field _ shape default _ rest =>
    obtain ⟨part, parts⟩ := parts
    obtain ⟨more, i₁, i₂, found, item, others⟩ := Fields.readsToEnd_field.mp read
    obtain ⟨texts, u, continues, values, rfl, reads⟩ :=
      rest.of_readsToEnd takes.2 (Nat.succ_ne_zero 0) others
    cases more with
    | true =>
      obtain ⟨gap₁, blank₁, rfl⟩ := of_nextItem_first found
      obtain ⟨gap₂, t, blank₂, taken, -, rfl⟩ := takes.1 i₁ part _ item
      refine ⟨_, .list (List.forall_mem_cons.mpr ⟨taken.value, values⟩)
        (.parts (blank₁.append blank₂) continues), by simp, fun after ↦
        Fields.readsToEnd_field.mpr ⟨true, t ++ (u ++ after), u ++ after, ?_, ?_, reads after⟩⟩
      · simpa using nextItem_first (blank₁.append blank₂) taken.reads.solid (u ++ after)
      · exact taken.reads.before (continues.apart (.inl rfl) after)
    | false =>
      obtain ⟨isDefault, rfl⟩ := item
      obtain ⟨gap, v, blank, same, rfl⟩ := of_nextItem_eq_ok_false found
      obtain ⟨rfl, rfl⟩ := continues.eq_close same.symm
      refine ⟨gap ++ [0x5d], .list (by simp) (.empty blank), by simp, fun after ↦
        Fields.readsToEnd_field.mpr ⟨false, 0x5d :: after, _, ?_, ⟨isDefault, rfl⟩, reads after⟩⟩
      simpa using nextItem_close blank after

theorem Fields.completes_parts {α ρ σ : Type} {fields : Fields α ρ σ}
    (takes : fields.TakesParts depth) (name : String) (count : Nat) (build : ρ → β) :
    Completes 0x5b (do
      let parts ← fields.readItems name count depth 0
      closeList
      return build parts) := by
  intro i b j h
  obtain ⟨parts, k, read, others⟩ := bind_eq_ok.mp h
  obtain ⟨⟨⟩, k', close, last⟩ := bind_eq_ok.mp others
  obtain ⟨rfl, rfl⟩ := pure_eq_ok.mp last
  obtain ⟨u, value, rfl, reads⟩ := Fields.exists_list_of_readsToEnd takes ⟨k, read, close⟩
  refine ⟨u, value, rfl, fun rest ↦ ?_⟩
  obtain ⟨k', again, close⟩ := reads rest
  exact (bind_ok again).trans (bind_ok close)

theorem Fields.takesRest {α ρ σ : Type} :
    (fields : Fields α ρ σ) → fields.TakesParts depth → (key : String) → (slots : σ) →
      TakesRest (fields.readMember depth key slots)
  | .done, _, key, slots => by
    rw [Fields.readMember]
    exact (takesValues_skip.inside.bind fun _ ↦ .pure slots).rest
  | .field name shape _ _ rest, takes, key, (slot, slots) => by
    rw [Fields.readMember]
    split
    · split
      · exact nofun
      · exact (takes.1.inside.bind fun b ↦ .pure (some b, slots)).rest
    · exact (rest.takesRest takes.2 key slots).bind fun slots' ↦ .pure (slot, slots')

theorem takesValues_record {ρ σ : Type} {name : String} {fields : Fields α ρ σ} {build : ρ → α}
    (takes : fields.TakesParts (depth - 1)) :
    TakesValues ((Shape.record name fields build).read depth) := by
  rw [Shape.read]
  refine takesValues_start fun b solid ↦ ?_
  by_cases isBrace : Char.ofUInt8 b = '\x7b'
  · obtain rfl : b = 0x7b := ofUInt8_inj.mp isBrace
    refine Completes.takesAt_enter ?_ solid rfl rfl
    refine .members_bind (takesMembers_string (fields.takesRest takes)) _ fun slots ↦ ?_
    cases fields.fill slots with
    | error cause => exact .fail cause
    | ok parts => exact .pure (build parts)
  by_cases isBracket : Char.ofUInt8 b = '['
  · obtain rfl : b = 0x5b := ofUInt8_inj.mp isBracket
    exact Completes.takesAt_enter
      (fields.completes_parts takes name fields.count build) solid rfl rfl
  · exact takesAt_of_mismatch _ _ ((if_neg isBrace).trans (if_neg isBracket))

/-! ## All shapes -/

mutual

/-- **What a shape reads is one value.** -/
theorem Shape.takesValues {α : Type} :
    (shape : Shape α) → (depth : Nat) → TakesValues (shape.read depth)
  | .boolean, _ => by
    rw [Shape.read]
    exact takesValues_boolean _
  | .integer range, _ => by
    rw [Shape.read]
    exact takesValues_integer range
  | .float32, _ => by
    rw [Shape.read]
    exact takesValues_floating .single _
  | .float64, _ => by
    rw [Shape.read]
    exact takesValues_floating .double _
  | .text, _ => by
    rw [Shape.read]
    exact takesValues_text _
  | .optional shape, depth => (shape.takesValues depth).optional
  | .list shape, depth => (shape.takesValues (depth - 1)).list
  | .table shape, depth => (shape.takesValues (depth - 1)).table
  | .numbered shape, depth => (shape.takesValues (depth - 1)).numbered
  | .record _ fields _, depth => takesValues_record (fields.takesParts (depth - 1))
  | .choice variants, depth => by
    rw [Shape.read]
    refine takesValues_start fun b solid ↦ ?_
    by_cases isBracket : Char.ofUInt8 b = '\x7b'
    · obtain rfl : b = 0x7b := ofUInt8_inj.mp isBracket
      exact Completes.takesAt_enter (completes_tagged
        (variants.takesRest variants.tags (depth - 1))) solid rfl rfl
    by_cases isQuote : Char.ofUInt8 b = '"'
    · obtain rfl : b = 0x22 := ofUInt8_inj.mp isQuote
      exact (completes_string.bind (variants.idle_readBare variants.tags)).takesAt
        solid rfl fun i ↦ rfl
    · refine .of_yields ?_
      rw [if_neg isBracket, if_neg isQuote]
      exact .fail _
  | .tooDeep, _ => nofun

theorem Fields.takesParts {α ρ σ : Type} :
    (fields : Fields α ρ σ) → (depth : Nat) → fields.TakesParts depth
  | .done, _ => trivial
  | .field _ shape _ _ rest, depth => ⟨shape.takesValues depth, rest.takesParts depth⟩

theorem Variants.takesRest {α : Type} :
    (variants : Variants α) → (known : List String) → (depth : Nat) → (tag : String) →
      TakesRest (variants.readTagged known depth tag)
  | .done, _, _, _ => nofun
  | .bare tag' value _ rest, known, depth, tag => by
    rw [Variants.readTagged]
    split
    · exact ((takesValues_null "unit").inside.bind fun _ ↦ .pure value).rest
    · exact rest.takesRest known depth tag
  | .payload tag' shape inject _ rest, known, depth, tag => by
    rw [Variants.readTagged]
    split
    · exact ((shape.takesValues depth).inside.bind fun b ↦ .pure (inject b)).rest
    · exact rest.takesRest known depth tag

theorem Variants.idle_readBare {α : Type} :
    (variants : Variants α) → (known : List String) → (tag : String) →
      Idle (variants.readBare known tag)
  | .done, _, _ => .fail _
  | .bare tag' value _ rest, known, tag => by
    rw [Variants.readBare]
    exact .ite (.pure value) (rest.idle_readBare known tag)
  | .payload tag' _ _ _ rest, known, tag => by
    rw [Variants.readBare]
    exact .ite (.inside (.fail _)) (rest.idle_readBare known tag)

end

end IdlLinker.Json
