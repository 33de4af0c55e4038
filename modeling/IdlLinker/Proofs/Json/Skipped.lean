import IdlLinker.Proofs.Json.Skip

/-!
# What was passed over

Where the loop that passes over a value comes to its end, it took a value of the grammar off the
input, and what was left in the open brackets after it (`of_skipValue_eq_ok`). What may be left in
open brackets is said by `Finishes`: more parts for each of them, and their closing brackets, from
the innermost to the outermost.

The three states of the loop are three statements, proved at once by induction on the turns that are
left. In each the text is existential: there is one that was taken, it is of the right form for the
brackets that were open, and what comes after it is left as it was. Taken with an empty list of
brackets this is the statement about a single value.
-/

namespace IdlLinker.Json

open Reader

/-- A member of an object whose value is of the grammar. -/
def IsEntry (m : List UInt8) : Prop :=
  ∃ key value, IsQuoted key ∧ IsValue value ∧ Member (key, value) m

/-- A part of a list or of an object. -/
def Reader.Bracket.IsPart : Bracket → List UInt8 → Prop
  | .list => IsValue
  | .object => IsEntry

/-- What is left of a document after a part, up to the end of the outermost of the open brackets. -/
inductive Finishes : List Bracket → List UInt8 → Prop where
  | done : Finishes [] []
  | close {bracket : Bracket} {stack : List Bracket} {parts : List (List UInt8)}
      {u v : List UInt8} (h : Continues bracket.close parts u)
      (areParts : ∀ p ∈ parts, bracket.IsPart p) (others : Finishes stack v) :
      Finishes (bracket :: stack) (u ++ v)

variable {i j t u gap : List UInt8} {stack : List Bracket} {bracket : Bracket}

theorem Finishes.stop (blank : Blank gap) (h : Finishes stack u) :
    Finishes (bracket :: stack) (gap ++ bracket.close :: u) := by
  have closed : Finishes (bracket :: stack) (gap ++ [bracket.close] ++ u) :=
    .close (.stop blank) (by simp) h
  simpa using closed

/-- A part after a comma comes before what is left. -/
theorem Finishes.more {gap' : List UInt8} (blank : Blank gap) (blank' : Blank gap')
    (part : bracket.IsPart t) (h : Finishes (bracket :: stack) u) :
    Finishes (bracket :: stack) (gap ++ 0x2c :: (gap' ++ (t ++ u))) := by
  cases h with
  | @close _ _ parts u v continues areParts others =>
    have longer := Finishes.close (.more blank blank' continues)
      (List.forall_mem_cons.mpr ⟨part, areParts⟩) others
    simpa using longer

theorem exists_members {parts : List (List UInt8)} (entries : ∀ p ∈ parts, IsEntry p) :
    ∃ members, List.Forall₂ Member members parts ∧ (∀ m ∈ members, IsQuoted m.1) ∧
      ∀ m ∈ members, IsValue m.2 := by
  induction parts with
  | nil => exact ⟨[], .nil, by simp, by simp⟩
  | cons p parts ih =>
    obtain ⟨⟨key, value, quoted, isValue, member⟩, entries⟩ := List.forall_mem_cons.mp entries
    obtain ⟨members, areMembers, keys, values⟩ := ih entries
    exact ⟨(key, value) :: members, .cons member areMembers,
      List.forall_mem_cons.mpr ⟨quoted, keys⟩, List.forall_mem_cons.mpr ⟨isValue, values⟩⟩

theorem Reader.Bracket.isValue (bracket : Bracket) {parts : List (List UInt8)}
    (h : Encloses bracket.opening bracket.close parts t)
    (areParts : ∀ p ∈ parts, bracket.IsPart p) : IsValue t := by
  cases bracket with
  | list => exact .list areParts h
  | object =>
    obtain ⟨members, areMembers, keys, values⟩ := exists_members areParts
    exact .object keys values ⟨parts, areMembers, h⟩

theorem Finishes.opened (blank : Blank gap) (part : bracket.IsPart t)
    (h : Finishes (bracket :: stack) u) :
    ∃ v w, IsValue v ∧ Finishes stack w ∧ bracket.opening :: (gap ++ (t ++ u)) = v ++ w := by
  cases h with
  | @close _ _ parts u v continues areParts others =>
    refine ⟨_, v, bracket.isValue (.parts blank continues)
      (List.forall_mem_cons.mpr ⟨part, areParts⟩), others, by simp⟩

/-! ## What the loop takes -/

theorem of_colon_eq_ok (h : colon i = .ok ((), j)) : ∃ gap, Blank gap ∧ i = gap ++ 0x3a :: j := by
  rw [colon] at h
  replace h := bind_eq_ok.mp h
  obtain ⟨c?, i', first, h⟩ := h
  split at h
  · cases h
  · obtain ⟨gap, u, blank, rfl, rfl⟩ := of_next_eq_ok_byte 0x3a first
    cases h
    exact ⟨gap, blank, rfl⟩
  · cases h

/-- What the three loops take: what is left in the brackets, a value before it, or a member before
it. -/
structure Follows (fuel : Nat) : Prop where
  after : ∀ stack i j, skipAfter fuel stack i = .ok ((), j) →
    ∃ u, Finishes stack u ∧ i = u ++ j
  value : ∀ stack i j, skipValue fuel stack i = .ok ((), j) →
    ∃ gap t u, Blank gap ∧ IsValue t ∧ Finishes stack u ∧ i = gap ++ (t ++ (u ++ j))
  member : ∀ stack i j, skipMember fuel stack i = .ok ((), j) →
    ∃ gap m u, Blank gap ∧ IsEntry m ∧ Finishes stack u ∧ i = gap ++ (m ++ (u ++ j))

theorem skipAfter_step {fuel : Nat} (ih : Follows fuel)
    (h : skipAfter (fuel + 1) stack i = .ok ((), j)) : ∃ u, Finishes stack u ∧ i = u ++ j := by
  rcases stack with - | ⟨bracket, stack⟩
  · rw [skipAfter] at h
    obtain ⟨-, rfl⟩ := pure_eq_ok.mp h
    exact ⟨[], .done, rfl⟩
  rw [skipAfter] at h
  replace h := bind_eq_ok.mp h
  obtain ⟨c?, i', first, h⟩ := h
  split at h
  · cases h
  · obtain ⟨gap, u, blank, rfl, rfl⟩ := of_next_eq_ok_byte 0x2c first
    rw [advance_bind] at h
    obtain ⟨gap', t, u, blank', value, finishes, rfl⟩ := ih.value _ _ _ h
    exact ⟨_, .more blank blank' value finishes, by simp⟩
  · obtain ⟨gap, u, blank, rfl, rfl⟩ := of_next_eq_ok_byte 0x5d first
    rw [advance_bind] at h
    obtain ⟨u, finishes, rfl⟩ := ih.after _ _ _ h
    exact ⟨_, finishes.stop blank, by simp [Bracket.close]⟩
  · cases h
  · obtain ⟨gap, u, blank, rfl, rfl⟩ := of_next_eq_ok_byte 0x2c first
    rw [advance_bind] at h
    obtain ⟨gap', m, u, blank', entry, finishes, rfl⟩ := ih.member _ _ _ h
    exact ⟨_, .more blank blank' entry finishes, by simp⟩
  · obtain ⟨gap, u, blank, rfl, rfl⟩ := of_next_eq_ok_byte 0x7d first
    rw [advance_bind] at h
    obtain ⟨u, finishes, rfl⟩ := ih.after _ _ _ h
    exact ⟨_, finishes.stop blank, by simp [Bracket.close]⟩
  · cases h

theorem skipMember_step {fuel : Nat} (ih : Follows fuel)
    (h : skipMember (fuel + 1) stack i = .ok ((), j)) :
    ∃ gap m u, Blank gap ∧ IsEntry m ∧ Finishes stack u ∧ i = gap ++ (m ++ (u ++ j)) := by
  rw [skipMember] at h
  replace h := bind_eq_ok.mp h
  obtain ⟨c?, i', first, h⟩ := h
  split at h
  · cases h
  · obtain ⟨gap, u, blank, rfl, rfl⟩ := of_next_eq_ok_byte 0x22 first
    rw [advance_bind, remaining_bind] at h
    replace h := bind_eq_ok.mp h
    obtain ⟨⟨⟩, i₁, string, h⟩ := h
    replace h := bind_eq_ok.mp h
    obtain ⟨⟨⟩, i₂, separator, h⟩ := h
    obtain ⟨key, quotation, rfl⟩ := of_skipString_eq_ok string
    obtain ⟨gap₁, blank₁, rfl⟩ := of_colon_eq_ok separator
    obtain ⟨gap₂, value, u, blank₂, isValue, finishes, rfl⟩ := ih.value _ _ _ h
    exact ⟨gap, _, u, blank, ⟨0x22 :: key, value, ⟨key, quotation, rfl⟩, isValue,
      .mk blank₁ blank₂⟩, finishes, by simp⟩
  · cases h

theorem Follows.afterValue {fuel : Nat} (ih : Follows fuel) {r : Reader Unit}
    (takes : ∀ k, r i = .ok ((), k) → i = t ++ k)
    (h : (r >>= fun _ ↦ skipAfter fuel stack) i = .ok ((), j)) :
    ∃ u, Finishes stack u ∧ i = t ++ (u ++ j) := by
  replace h := bind_eq_ok.mp h
  obtain ⟨⟨⟩, k, read, h⟩ := h
  obtain ⟨u, finishes, rfl⟩ := ih.after _ _ _ h
  exact ⟨u, finishes, takes _ read⟩

/-- A bracket that was opened is passed over: either it is closed at once, or its parts come
first. -/
theorem Follows.opened {fuel : Nat} (ih : Follows fuel) (bracket : Bracket)
    {step : Option Char → Reader Unit} (atEnd : step none = fail bracket.atEnd)
    (closed : step (some (Char.ofUInt8 bracket.close)) =
      (advance >>= fun _ ↦ skipAfter fuel stack))
    (more : ∀ c, c ≠ Char.ofUInt8 bracket.close →
      step (some c) = bracket.skipPart fuel (bracket :: stack))
    (h : (next >>= step) i = .ok ((), j)) :
    ∃ t u, IsValue t ∧ Finishes stack u ∧ bracket.opening :: i = t ++ (u ++ j) := by
  replace h := bind_eq_ok.mp h
  obtain ⟨c?, i', first, h⟩ := h
  rcases c? with - | c
  · rw [atEnd] at h
    cases h
  by_cases close : c = Char.ofUInt8 bracket.close
  · subst close
    obtain ⟨gap, i, blank, rfl, rfl⟩ := of_next_eq_ok_byte bracket.close first
    rw [closed, advance_bind] at h
    obtain ⟨u, finishes, rfl⟩ := ih.after _ _ _ h
    exact ⟨_, u, bracket.isValue (.empty blank) (by simp), finishes, by simp⟩
  · obtain ⟨gap, blank, rfl, -⟩ := of_next_eq_ok first
    rw [more c close] at h
    obtain ⟨gap', p, u, blank', part, finishes, rfl⟩ : ∃ gap' p u, Blank gap' ∧
        bracket.IsPart p ∧ Finishes (bracket :: stack) u ∧ i' = gap' ++ (p ++ (u ++ j)) := by
      cases bracket with
      | list => exact ih.value _ _ _ h
      | object => exact ih.member _ _ _ h
    obtain ⟨t, v, value, finishes, same⟩ := finishes.opened (Blank.append blank blank') part
    refine ⟨t, v, value, finishes, ?_⟩
    rw [← List.append_assoc t, ← same]
    simp

theorem skipValue_step {fuel : Nat} (ih : Follows fuel)
    (h : skipValue (fuel + 1) stack i = .ok ((), j)) :
    ∃ gap t u, Blank gap ∧ IsValue t ∧ Finishes stack u ∧ i = gap ++ (t ++ (u ++ j)) := by
  rw [skipValue] at h
  replace h := bind_eq_ok.mp h
  obtain ⟨c?, i', first, h⟩ := h
  split at h
  · cases h
  · obtain ⟨gap, i, blank, rfl, rfl⟩ := of_next_eq_ok_byte 0x6e first
    rw [advance_bind] at h
    obtain ⟨u, finishes, rfl⟩ := ih.afterValue (fun k ↦ of_keyword_eq_ok [0x75, 0x6c, 0x6c]) h
    exact ⟨gap, _, u, blank, isValue_null, finishes, rfl⟩
  · obtain ⟨gap, i, blank, rfl, rfl⟩ := of_next_eq_ok_byte 0x74 first
    rw [advance_bind] at h
    obtain ⟨u, finishes, rfl⟩ := ih.afterValue (fun k ↦ of_keyword_eq_ok [0x72, 0x75, 0x65]) h
    exact ⟨gap, _, u, blank, isValue_true, finishes, rfl⟩
  · obtain ⟨gap, i, blank, rfl, rfl⟩ := of_next_eq_ok_byte 0x66 first
    rw [advance_bind] at h
    obtain ⟨u, finishes, rfl⟩ := ih.afterValue (fun k ↦ of_keyword_eq_ok [0x61, 0x6c, 0x73, 0x65]) h
    exact ⟨gap, _, u, blank, isValue_false, finishes, rfl⟩
  · obtain ⟨gap, i, blank, rfl, rfl⟩ := of_next_eq_ok_byte 0x22 first
    rw [advance_bind, remaining_bind] at h
    replace h := bind_eq_ok.mp h
    obtain ⟨⟨⟩, k, string, h⟩ := h
    obtain ⟨t, quotation, rfl⟩ := of_skipString_eq_ok string
    obtain ⟨u, finishes, rfl⟩ := ih.after _ _ _ h
    exact ⟨gap, _, u, blank, .string ⟨t, quotation, rfl⟩, finishes, by simp⟩
  · obtain ⟨gap, i, blank, rfl, rfl⟩ := of_next_eq_ok_byte 0x5b first
    rw [advance_bind] at h
    obtain ⟨t, u, value, finishes, same⟩ := ih.opened .list rfl rfl (fun c other ↦ by
      split
      · contradiction
      · exact absurd (Option.some.inj ‹_›) other
      · rfl) h
    exact ⟨gap, t, u, blank, value, finishes, congrArg (gap ++ ·) same⟩
  · obtain ⟨gap, i, blank, rfl, rfl⟩ := of_next_eq_ok_byte 0x7b first
    rw [advance_bind] at h
    obtain ⟨t, u, value, finishes, same⟩ := ih.opened .object rfl rfl (fun c other ↦ by
      split
      · contradiction
      · exact absurd (Option.some.inj ‹_›) other
      · rfl) h
    exact ⟨gap, t, u, blank, value, finishes, congrArg (gap ++ ·) same⟩
  · split at h
    · obtain ⟨gap, blank, rfl, -⟩ := of_next_eq_ok first
      replace h := bind_eq_ok.mp h
      obtain ⟨⟨⟩, k, number, h⟩ := h
      obtain ⟨t, ⟨_, _, _, _, text⟩, rfl⟩ := of_skipNumber_eq_ok number
      obtain ⟨u, finishes, rfl⟩ := ih.after _ _ _ h
      exact ⟨gap, t, u, blank, .number text, finishes, rfl⟩
    · cases h

/-- **The loops take what they should**, whatever the bound on their turns. -/
theorem follows (fuel : Nat) : Follows fuel := by
  induction fuel with
  | zero =>
    constructor
    · intro stack i j h
      -- Without a turn left the loop ends only if no bracket is open.
      rcases stack with - | ⟨bracket, stack⟩
      · rw [skipAfter] at h
        obtain ⟨-, rfl⟩ := pure_eq_ok.mp h
        exact ⟨[], .done, rfl⟩
      · cases h
    · intro stack i j h
      cases h
    · intro stack i j h
      cases h
  | succ fuel ih =>
    exact ⟨fun _ _ _ ↦ skipAfter_step ih, fun _ _ _ ↦ skipValue_step ih,
      fun _ _ _ ↦ skipMember_step ih⟩

/-- **What is passed over is one value**, after blanks, and it ends there. -/
theorem of_skip_eq_ok (h : skip i = .ok ((), j)) :
    ∃ gap t, Blank gap ∧ IsValue t ∧ Ends t j ∧ i = gap ++ (t ++ j) := by
  rw [skip, remaining_bind] at h
  obtain ⟨gap, t, u, blank, value, finishes, rfl⟩ := (follows _).value _ _ _ h
  cases finishes
  refine ⟨gap, t, blank, value, ?_, rfl⟩
  -- A number was passed over by the reader of numbers, and that one stopped where the loop did.
  rintro ⟨_, _, _, _, text⟩
  obtain ⟨b, t, rfl, solid, start⟩ := text.start
  obtain ⟨fuel, length⟩ : ∃ fuel, (gap ++ (b :: t ++ ([] ++ j))).length = fuel + 1 :=
    Nat.exists_eq_add_one.mpr (by simp only [List.length_append, List.length_cons]; omega)
  rw [length] at h
  replace h := (skipValue_digit blank solid start fuel []).symm.trans h
  obtain ⟨⟨⟩, k, skipped, last⟩ := bind_eq_ok.mp h
  cases fuel <;> cases last <;> exact skipped

end IdlLinker.Json
