import IdlLinker.Proofs.Json.Grammar
import IdlLinker.Proofs.Json.Quotation

/-!
# Any JSON value

`IsJson` is the grammar of JSON values on bytes, with blanks between the words. What is passed over
may be a little more than that: strings are followed to their ends only, so their bytes need not be
text. `IsValue` is the grammar of such values.

A value is passed over wherever it stands, however deep it is nested: the loop that does so keeps
the open brackets on a list, so what has to be followed is the list. Passing over a value comes to
going on with what is left in the open brackets (`Passes`), and likewise for a member of an object.
-/

namespace IdlLinker.Json

open Reader

/-- The grammar of JSON values. -/
inductive IsJson : List UInt8 → Prop where
  | null : IsJson (bytes "null")
  | true : IsJson (bytes "true")
  | false : IsJson (bytes "false")
  | number {minus : Bool} {whole : List UInt8} {fraction : Option (List UInt8)}
      {power : Option Int} {t : List UInt8} (h : NumberText minus whole fraction power t) : IsJson t
  | string {t : List UInt8} (h : IsString t) : IsJson t
  | list {items : List (List UInt8)} {t : List UInt8} (values : ∀ u ∈ items, IsJson u)
      (h : IsList items t) : IsJson t
  | object {members : List (List UInt8 × List UInt8)} {t : List UInt8}
      (keys : ∀ m ∈ members, IsString m.1) (values : ∀ m ∈ members, IsJson m.2)
      (h : IsObject members t) : IsJson t

/-- The grammar of what is taken for a value: JSON, up to what stands between quotes. -/
inductive IsValue : List UInt8 → Prop where
  | null : IsValue (bytes "null")
  | true : IsValue (bytes "true")
  | false : IsValue (bytes "false")
  | number {minus : Bool} {whole : List UInt8} {fraction : Option (List UInt8)}
      {power : Option Int} {t : List UInt8} (h : NumberText minus whole fraction power t) :
      IsValue t
  | string {t : List UInt8} (h : IsQuoted t) : IsValue t
  | list {items : List (List UInt8)} {t : List UInt8} (values : ∀ u ∈ items, IsValue u)
      (h : IsList items t) : IsValue t
  | object {members : List (List UInt8 × List UInt8)} {t : List UInt8}
      (keys : ∀ m ∈ members, IsQuoted m.1) (values : ∀ m ∈ members, IsValue m.2)
      (h : IsObject members t) : IsValue t

theorem IsJson.isValue {t : List UInt8} (h : IsJson t) : IsValue t := by
  induction h with
  | null => exact .null
  | true => exact .true
  | false => exact .false
  | number h => exact .number h
  | string h => exact .string h.isQuoted
  | list _ h ih => exact .list ih h
  | object keys _ h ih => exact .object (fun m hm ↦ (keys m hm).isQuoted) ih h

/-! ## Passing over what stands in a bracket -/

/-- Passes over a part of a list or of an object. -/
def Reader.Bracket.skipPart : Bracket → Nat → List Bracket → Reader Unit
  | .list => skipValue
  | .object => skipMember

def Reader.Bracket.opening : Bracket → UInt8
  | .list => 0x5b
  | .object => 0x7b

def Reader.Bracket.close : Bracket → UInt8
  | .list => 0x5d
  | .object => 0x7d

/-- A loop takes a text in no more turns than it has bytes, and goes on as after a value. -/
def PassesTo (loop : Nat → List Bracket → Reader Unit) (t : List UInt8) : Prop :=
  ∃ n ≤ t.length, ∀ gap fuel stack rest, Blank gap → Apart rest →
    loop (fuel + n) stack (gap ++ (t ++ rest)) = skipAfter fuel stack rest

abbrev Passes (t : List UInt8) : Prop := PassesTo skipValue t

/-- A value is passed over, whatever comes after it. -/
def PassesAlways (t : List UInt8) : Prop :=
  ∃ n ≤ t.length, ∀ gap fuel stack rest, Blank gap →
    skipValue (fuel + n) stack (gap ++ (t ++ rest)) = skipAfter fuel stack rest

theorem PassesAlways.passes {t : List UInt8} (h : PassesAlways t) : Passes t := by
  obtain ⟨n, hn, passes⟩ := h
  exact ⟨n, hn, fun gap fuel stack rest blank _ ↦ passes gap fuel stack rest blank⟩

variable {t u gap rest : List UInt8} {parts : List (List UInt8)}

theorem skipAfter_close (bracket : Bracket) (fuel : Nat) (stack : List Bracket)
    (blank : Blank gap) :
    skipAfter (fuel + 1) (bracket :: stack) (gap ++ bracket.close :: rest) =
      skipAfter fuel stack rest := by
  cases bracket <;>
  · rw [skipAfter, bind_ok (next_ok blank (by decide))]
    rfl

theorem skipAfter_comma (bracket : Bracket) (fuel : Nat) (stack : List Bracket)
    (blank : Blank gap) :
    skipAfter (fuel + 1) (bracket :: stack) (gap ++ 0x2c :: rest) =
      bracket.skipPart fuel (bracket :: stack) rest := by
  cases bracket <;>
  · rw [skipAfter, bind_ok (next_ok blank (by decide))]
    rfl

/-- The parts after the first are passed over, and the bracket is closed. -/
theorem skipAfter_continues (bracket : Bracket) (h : Continues bracket.close parts u)
    (passes : ∀ p ∈ parts, PassesTo bracket.skipPart p) :
    ∃ n ≤ u.length, ∀ fuel stack rest,
      skipAfter (fuel + n) (bracket :: stack) (u ++ rest) = skipAfter fuel stack rest := by
  induction h with
  | stop blank =>
    refine ⟨1, by simp, fun fuel stack rest ↦ ?_⟩
    rw [List.append_assoc]
    exact skipAfter_close bracket fuel stack blank
  | @more gap gap' part u parts blank blank' others ih =>
    obtain ⟨first, passes⟩ := List.forall_mem_cons.mp passes
    obtain ⟨n, hn, first⟩ := first
    obtain ⟨m, hm, ih⟩ := ih passes
    refine ⟨m + n + 1, by simp only [List.length_append, List.length_cons]; omega,
      fun fuel stack rest ↦ ?_⟩
    have apart := others.apart (by cases bracket <;> simp [Bracket.close]) rest
    simp only [List.append_assoc, List.cons_append]
    rw [← Nat.add_assoc, skipAfter_comma bracket _ stack blank, ← Nat.add_assoc,
      first gap' _ _ _ blank' apart, ih]

/-! ## Lists and objects -/

theorem skipValue_empty (bracket : Bracket) (fuel : Nat) (stack : List Bracket) {gap' : List UInt8}
    (blank : Blank gap) (blank' : Blank gap') :
    skipValue (fuel + 1) stack (gap ++ bracket.opening :: (gap' ++ bracket.close :: rest)) =
      skipAfter fuel stack rest := by
  cases bracket <;>
  · rw [skipValue, bind_ok (next_ok blank (by decide))]
    exact (bind_ok (advance_cons _ _)).trans
      ((bind_ok (next_ok blank' (by decide))).trans rfl)

/-- A part comes next in a bracket that was just opened. -/
def Reader.Bracket.Begins (bracket : Bracket) (t : List UInt8) : Prop :=
  ∃ b u, t = b :: u ∧ isBlank b = false ∧ Char.ofUInt8 b ≠ Char.ofUInt8 bracket.close

theorem skipValue_open (bracket : Bracket) (fuel : Nat) (stack : List Bracket) {gap' : List UInt8}
    (blank : Blank gap) (blank' : Blank gap') (begins : bracket.Begins t) :
    skipValue (fuel + 1) stack (gap ++ bracket.opening :: (gap' ++ (t ++ rest))) =
      bracket.skipPart fuel (bracket :: stack) (t ++ rest) := by
  obtain ⟨b, u, rfl, hb, ne⟩ := begins
  cases bracket with
  | list =>
    have opened : next (gap ++ 0x5b :: (gap' ++ (b :: u ++ rest))) =
      .ok (some '[', 0x5b :: (gap' ++ (b :: u ++ rest))) := next_ok blank (by decide)
    replace ne : Char.ofUInt8 b ≠ ']' := ne
    rw [Bracket.opening, skipValue, bind_ok opened]
    refine (bind_ok (advance_cons _ _)).trans
      ((bind_ok (next_ok blank' hb)).trans ?_)
    simp only
    rfl
  | object =>
    have opened : next (gap ++ 0x7b :: (gap' ++ (b :: u ++ rest))) =
      .ok (some '\x7b', 0x7b :: (gap' ++ (b :: u ++ rest))) := next_ok blank (by decide)
    replace ne : Char.ofUInt8 b ≠ '\x7d' := ne
    rw [Bracket.opening, skipValue, bind_ok opened]
    refine (bind_ok (advance_cons _ _)).trans
      ((bind_ok (next_ok blank' hb)).trans ?_)
    simp only
    rfl

theorem passes_encloses (bracket : Bracket) (h : Encloses bracket.opening bracket.close parts t)
    (begins : ∀ p ∈ parts, bracket.Begins p) (passes : ∀ p ∈ parts, PassesTo bracket.skipPart p) :
    PassesAlways t := by
  cases h with
  | @empty gap' blank' =>
    refine ⟨1, by simp, fun gap fuel stack rest blank ↦ ?_⟩
    rw [List.cons_append, List.append_assoc]
    exact skipValue_empty bracket fuel stack blank blank'
  | @parts gap' part u parts blank' others =>
    obtain ⟨first, passes⟩ := List.forall_mem_cons.mp passes
    obtain ⟨n, hn, first⟩ := first
    obtain ⟨m, hm, others'⟩ := skipAfter_continues bracket others passes
    refine ⟨m + n + 1, by simp only [List.length_append, List.length_cons]; omega,
      fun gap fuel stack rest blank ↦ ?_⟩
    have apart := others.apart (by cases bracket <;> simp [Bracket.close]) rest
    simp only [List.append_assoc, List.cons_append]
    rw [← Nat.add_assoc, skipValue_open bracket _ stack blank blank'
      (List.forall_mem_cons.mp begins).1, ← Nat.add_assoc]
    have value := first [] (fuel + m) (bracket :: stack) (u ++ rest) .nil apart
    rw [List.nil_append] at value
    rw [value, others']

theorem passesTo_member {key value m : List UInt8} (h : Member (key, value) m)
    (string : IsQuoted key) (passes : Passes value) : PassesTo skipMember m := by
  obtain ⟨blank₁, blank₂⟩ := h
  obtain ⟨u, quotation, rfl⟩ := string
  obtain ⟨n, hn, passes⟩ := passes
  refine ⟨n + 1, by simp only [List.length_append, List.length_cons]; omega,
    fun gap fuel stack rest blank apart ↦ ?_⟩
  have quote {i : List UInt8} : next (gap ++ 0x22 :: i) = .ok (some '"', 0x22 :: i) :=
    next_ok blank (by decide)
  simp only [List.append_assoc, List.cons_append]
  rw [← Nat.add_assoc, skipMember, bind_ok quote]
  refine (bind_ok (advance_cons _ _)).trans ((bind_ok (remaining_eq _)).trans
    ((bind_ok (quotation.turns_skip.stops _ (Nat.le_refl _))).trans
      ((bind_ok (colon_ok blank₁ _)).trans ?_)))
  exact passes _ _ _ _ blank₂ apart

/-! ## Values -/

theorem bytes_null : bytes "null" = [0x6e, 0x75, 0x6c, 0x6c] := bytes_eq "null"

theorem bytes_true : bytes "true" = [0x74, 0x72, 0x75, 0x65] := bytes_eq "true"

theorem bytes_false : bytes "false" = [0x66, 0x61, 0x6c, 0x73, 0x65] := bytes_eq "false"

theorem isValue_null : IsValue [0x6e, 0x75, 0x6c, 0x6c] := bytes_null ▸ .null

theorem isValue_true : IsValue [0x74, 0x72, 0x75, 0x65] := bytes_true ▸ .true

theorem isValue_false : IsValue [0x66, 0x61, 0x6c, 0x73, 0x65] := bytes_false ▸ .false

/-- A bracket, a quote or a letter begins a value, and neither ends a list. -/
theorem IsValue.begins (h : IsValue t) : Bracket.list.Begins t := by
  cases h with
  | null => exact ⟨_, _, bytes_null, by decide, by decide⟩
  | true => exact ⟨_, _, bytes_true, by decide, by decide⟩
  | false => exact ⟨_, _, bytes_false, by decide, by decide⟩
  | number h =>
    obtain ⟨b, u, rfl, blank, start⟩ := h.start
    refine ⟨b, u, rfl, blank, fun eq ↦ ?_⟩
    rw [eq] at start
    exact absurd start (by decide)
  | string h =>
    obtain ⟨u, -, rfl⟩ := h
    exact ⟨_, _, rfl, by decide, by decide⟩
  | list _ h => cases h <;> exact ⟨_, _, rfl, by decide, by decide⟩
  | object _ _ h =>
    obtain ⟨parts, -, h⟩ := h
    cases h <;> exact ⟨_, _, rfl, by decide, by decide⟩

theorem Member.begins {m key value : List UInt8} (h : Member (key, value) m)
    (string : IsQuoted key) : Bracket.object.Begins m := by
  obtain ⟨u, -, rfl⟩ := string
  cases h
  exact ⟨_, _, rfl, by decide, by decide⟩

theorem skipValue_digit {b : UInt8} (blank : Blank gap) (solid : isBlank b = false)
    (start : Char.ofUInt8 b = '-' ∨ isDigit (Char.ofUInt8 b) = true) (fuel : Nat)
    (stack : List Bracket) :
    skipValue (fuel + 1) stack (gap ++ b :: rest) =
      (skipNumber >>= fun _ ↦ skipAfter fuel stack) (b :: rest) := by
  obtain ⟨n, t, f, quote, list, object⟩ := ne_of_startsNumber start
  rw [skipValue, bind_ok (next_ok blank solid)]
  simp only
  rw [if_pos start]

theorem skipValue_number (h : IsNumber t) (ends : Ends t rest) (blank : Blank gap) (fuel : Nat)
    (stack : List Bracket) :
    skipValue (fuel + 1) stack (gap ++ (t ++ rest)) = skipAfter fuel stack rest := by
  have skip := ends h
  obtain ⟨_, _, _, _, text⟩ := h
  obtain ⟨b, u, rfl, solid, start⟩ := text.start
  rw [List.cons_append, skipValue_digit blank solid start]
  exact bind_ok skip

theorem IsNumber.length_pos (h : IsNumber t) : 0 < t.length := by
  obtain ⟨_, _, _, _, text⟩ := h
  exact text.solid.length_pos

theorem IsNumber.passes (h : IsNumber t) : Passes t :=
  ⟨1, h.length_pos, fun _ fuel stack _ blank apart ↦
    skipValue_number h (apart.ends t) blank fuel stack⟩

theorem passes_quoted (h : IsQuoted t) : PassesAlways t := by
  obtain ⟨u, quotation, rfl⟩ := h
  refine ⟨1, by simp, fun gap fuel stack rest blank ↦ ?_⟩
  have quote {i : List UInt8} : next (gap ++ 0x22 :: i) = .ok (some '"', 0x22 :: i) :=
    next_ok blank (by decide)
  rw [List.cons_append, skipValue, bind_ok quote]
  exact (bind_ok (advance_cons _ _)).trans ((bind_ok (remaining_eq _)).trans
    (bind_ok (quotation.turns_skip.stops _ (Nat.le_refl _))))

theorem passes_list {items : List (List UInt8)} (values : ∀ u ∈ items, IsValue u ∧ Passes u)
    (h : IsList items t) : PassesAlways t :=
  passes_encloses .list h (fun p hp ↦ (values p hp).1.begins) fun p hp ↦ (values p hp).2

theorem passes_object {members : List (List UInt8 × List UInt8)}
    (keys : ∀ m ∈ members, IsQuoted m.1) (values : ∀ m ∈ members, Passes m.2)
    (h : IsObject members t) : PassesAlways t := by
  obtain ⟨parts, isMember, h⟩ := h
  refine passes_encloses .object h (fun p hp ↦ ?_) fun p hp ↦ ?_
  · obtain ⟨m, hm, member⟩ := exists_of_forall₂ isMember hp
    exact member.begins (keys m hm)
  · obtain ⟨m, hm, member⟩ := exists_of_forall₂ isMember hp
    exact passesTo_member member (keys m hm) (values m hm)

theorem passesAlways_null : PassesAlways (bytes "null") := by
  rw [bytes_null]
  refine ⟨1, by simp, fun gap fuel stack rest blank ↦ ?_⟩
  rw [List.cons_append, skipValue, bind_ok (next_ok blank (by decide))]
  rfl

theorem passesAlways_true : PassesAlways (bytes "true") := by
  rw [bytes_true]
  refine ⟨1, by simp, fun gap fuel stack rest blank ↦ ?_⟩
  rw [List.cons_append, skipValue, bind_ok (next_ok blank (by decide))]
  rfl

theorem passesAlways_false : PassesAlways (bytes "false") := by
  rw [bytes_false]
  refine ⟨1, by simp, fun gap fuel stack rest blank ↦ ?_⟩
  rw [List.cons_append, skipValue, bind_ok (next_ok blank (by decide))]
  rfl

/-- **A value is passed over**, and if it is no number, whatever comes after it. -/
theorem IsValue.isNumber_or_passesAlways (h : IsValue t) : IsNumber t ∨ PassesAlways t := by
  have passes {u : List UInt8} (h : IsNumber u ∨ PassesAlways u) : Passes u :=
    h.elim IsNumber.passes PassesAlways.passes
  induction h with
  | null => exact .inr passesAlways_null
  | true => exact .inr passesAlways_true
  | false => exact .inr passesAlways_false
  | number h => exact .inl ⟨_, _, _, _, h⟩
  | string h => exact .inr (passes_quoted h)
  | list values h ih => exact .inr (passes_list (fun u hu ↦ ⟨values u hu, passes (ih u hu)⟩) h)
  | object keys _ h ih => exact .inr (passes_object keys (fun m hm ↦ passes (ih m hm)) h)

theorem skip_of_passes {n : Nat} (le : n ≤ t.length)
    (passes : ∀ fuel, skipValue (fuel + n) [] (gap ++ (t ++ rest)) = skipAfter fuel [] rest) :
    skip (gap ++ (t ++ rest)) = .ok ((), rest) := by
  obtain ⟨fuel, hf⟩ : ∃ fuel, (gap ++ (t ++ rest)).length = fuel + n :=
    ⟨_, (Nat.sub_add_cancel (by simp only [List.length_append]; omega)).symm⟩
  rw [skip, bind_ok (remaining_eq _), hf, passes]
  cases fuel <;> rfl

/-- **A value is passed over where it ends.** -/
theorem IsValue.skip_ok (h : IsValue t) (ends : Ends t rest) (blank : Blank gap) :
    skip (gap ++ (t ++ rest)) = .ok ((), rest) := by
  rcases h.isNumber_or_passesAlways with number | ⟨n, le, passes⟩
  · exact skip_of_passes number.length_pos fun fuel ↦ skipValue_number number ends blank fuel []
  · exact skip_of_passes le fun fuel ↦ passes gap fuel [] rest blank

/-- A JSON value is passed over wherever it stands. -/
theorem IsJson.reads_skip (h : IsJson t) : Reads skip t () :=
  ⟨h.isValue.begins, fun _ _ blank apart ↦ h.isValue.skip_ok (apart.ends t) blank⟩

end IdlLinker.Json
