import IdlLinker.Proofs.Json.Number

/-!
# What was taken

The other direction of the rules of readers: where a reader of blanks, of a keyword or of a number
succeeds, the text that it took off the input is one of the grammar, and nothing else was taken.
What it gives depends on that text alone, so the rules of `Number` apply to it in every other place.

The rules of `Number` say what happens when a text of the grammar is in front. These say that
nothing else can have been in front, and that is what is needed where a document is given and not
built. They are proved by taking each reader apart at its binds (`bind_eq_ok`); a reader that only
looks ahead takes the empty text.
-/

namespace IdlLinker.Json.Reader

variable {α : Type} {i j : List UInt8} {c : Char} {b : UInt8} {atEnd : Cause}

/-! ## Steps that cannot fail -/

section Steps

variable {β : Type}

theorem peek_bind (f : Option Char → Reader β) (i : List UInt8) :
    (peek >>= f) i = f (i.head?.map Char.ofUInt8) i := rfl

theorem advance_bind (f : Unit → Reader β) (b : UInt8) (i : List UInt8) :
    (advance >>= f) (b :: i) = f () i := rfl

theorem remaining_bind (f : Nat → Reader β) (i : List UInt8) :
    (remaining >>= f) i = f i.length i := rfl

theorem get_bind (f : List UInt8 → Reader β) (i : List UInt8) : (get >>= f) i = f i i := rfl

end Steps

/-! ## Bytes -/

theorem ofUInt8_inj {b b' : UInt8} : Char.ofUInt8 b = Char.ofUInt8 b' ↔ b = b' := by
  constructor
  · intro h
    refine UInt8.toNat_inj.mp ?_
    rw [← toNat_ofUInt8, ← toNat_ofUInt8, h]
  · exact congrArg _

theorem pure_eq_ok {a a' : α} : (pure a : Reader α) i = .ok (a', j) ↔ a = a' ∧ i = j := by
  change Except.ok (a, i) = .ok (a', j) ↔ _
  simp

theorem of_next_eq_ok {c? : Option Char} (h : next i = .ok (c?, j)) :
    ∃ gap, Blank gap ∧ i = gap ++ j ∧ c? = j.head?.map Char.ofUInt8 ∧
      ∀ b ∈ j.head?, isBlank b = false := by
  obtain ⟨rfl, rfl⟩ := Prod.mk.inj (Except.ok.inj h)
  refine ⟨i.takeWhile isBlank, fun b hb ↦ List.mem_takeWhile_imp hb,
    List.takeWhile_append_dropWhile.symm, rfl, fun b hb ↦ ?_⟩
  have stop := List.head?_dropWhile_not isBlank i
  rw [Option.mem_def.mp hb] at stop
  exact stop

theorem of_next_eq_ok_some (h : next i = .ok (some c, j)) :
    ∃ gap b u, Blank gap ∧ isBlank b = false ∧ c = Char.ofUInt8 b ∧ j = b :: u ∧
      i = gap ++ b :: u := by
  obtain ⟨gap, blank, rfl, first, solid⟩ := of_next_eq_ok h
  rcases j with - | ⟨b, u⟩
  · cases first
  · exact ⟨gap, b, u, blank, solid b rfl, Option.some.inj first, rfl, rfl⟩

theorem of_next_eq_ok_byte (b : UInt8) (h : next i = .ok (some (Char.ofUInt8 b), j)) :
    ∃ gap u, Blank gap ∧ j = b :: u ∧ i = gap ++ b :: u := by
  obtain ⟨gap, b', u, blank, -, same, rfl, rfl⟩ := of_next_eq_ok_some h
  obtain rfl := ofUInt8_inj.mp same
  exact ⟨gap, u, blank, rfl, rfl⟩

theorem of_start_eq_ok (h : start i = .ok (c, j)) :
    ∃ gap b u, Blank gap ∧ isBlank b = false ∧ c = Char.ofUInt8 b ∧ j = b :: u ∧
      i = gap ++ b :: u := by
  replace h := bind_eq_ok.mp h
  obtain ⟨c?, j', first, h⟩ := h
  cases c? with
  | none => cases h
  | some c' =>
    obtain ⟨rfl, rfl⟩ := pure_eq_ok.mp h
    exact of_next_eq_ok_some first

theorem of_take?_eq_ok_true (h : take? c i = .ok (true, j)) :
    ∃ b, Char.ofUInt8 b = c ∧ i = b :: j := by
  rw [take?, peek_bind] at h
  split at h
  · rename_i same
    rcases i with - | ⟨b, u⟩
    · cases same
    · cases h
      exact ⟨b, Option.some.inj same, rfl⟩
  · cases h

theorem of_take?_eq_ok_false (h : take? c i = .ok (false, j)) : i = j := by
  rw [take?, peek_bind] at h
  split at h
  · cases h
  · exact (pure_eq_ok.mp h).2

theorem of_keyword_eq_ok (bs : List UInt8) (h : keyword (bs.map Char.ofUInt8) i = .ok ((), j)) :
    i = bs ++ j := by
  induction bs generalizing i with
  | nil => exact (pure_eq_ok.mp h).2
  | cons b bs ih =>
    rw [List.map_cons, keyword, peek_bind] at h
    rcases i with - | ⟨b', u⟩
    · cases h
    · simp only [List.head?_cons, Option.map_some] at h
      split at h
      · rename_i same
        rw [advance_bind] at h
        rw [ofUInt8_inj.mp same, ih h, List.cons_append]
      · cases h

/-! ## Numbers -/

theorem of_someDigits_eq_ok {ds : List UInt8} (h : someDigits atEnd i = .ok (ds, j)) :
    Digits ds ∧ i = ds ++ j := by
  rw [someDigits, peek_bind] at h
  rcases i with - | ⟨b, u⟩
  · cases h
  · simp only [List.head?_cons, Option.map_some] at h
    split at h
    · rename_i digit
      obtain ⟨rfl, rfl⟩ := Prod.mk.inj (Except.ok.inj h)
      refine ⟨⟨?_, fun b hb ↦ ?_⟩, List.takeWhile_append_dropWhile.symm⟩
      · rw [List.takeWhile_cons_of_pos (p := fun b ↦ isDigit (Char.ofUInt8 b)) digit]
        exact List.cons_ne_nil _ _
      · exact List.mem_takeWhile_imp (p := fun b ↦ isDigit (Char.ofUInt8 b)) hb
    · cases h

theorem of_wholeDigits_eq_ok {ds : List UInt8} (h : wholeDigits atEnd i = .ok (ds, j)) :
    Digits ds ∧ (ds.head? = some 0x30 → ds.length = 1) ∧ i = ds ++ j := by
  replace h := bind_eq_ok.mp h
  obtain ⟨ds', i', read, h⟩ := h
  obtain ⟨digits, rfl⟩ := of_someDigits_eq_ok read
  split at h
  · cases h
  · rename_i single
    obtain ⟨rfl, rfl⟩ := pure_eq_ok.mp h
    refine ⟨digits, fun zero ↦ ?_, rfl⟩
    have nonempty := List.length_pos_of_ne_nil digits.1
    have notMore := not_and.mp single zero
    omega

theorem of_fractionDigits_eq_ok {fraction : Option (List UInt8)}
    (h : fractionDigits atEnd i = .ok (fraction, j)) :
    ∃ f, FractionText f fraction ∧ i = f ++ j := by
  replace h := bind_eq_ok.mp h
  obtain ⟨point, i', taken, h⟩ := h
  cases point with
  | false =>
    obtain rfl := of_take?_eq_ok_false taken
    obtain ⟨rfl, rfl⟩ := pure_eq_ok.mp h
    exact ⟨[], .absent, rfl⟩
  | true =>
    obtain ⟨b, isPoint, rfl⟩ := of_take?_eq_ok_true taken
    obtain rfl : b = 0x2e := ofUInt8_inj.mp isPoint
    replace h := bind_eq_ok.mp h
    obtain ⟨ds, i', read, h⟩ := h
    obtain ⟨digits, rfl⟩ := of_someDigits_eq_ok read
    obtain ⟨rfl, rfl⟩ := pure_eq_ok.mp h
    exact ⟨0x2e :: ds, .digits digits, rfl⟩

theorem of_exponentMark_eq_ok_true (h : exponentMark i = .ok (true, j)) :
    ∃ mark, (mark = 0x65 ∨ mark = 0x45) ∧ i = mark :: j := by
  replace h := bind_eq_ok.mp h
  obtain ⟨lower, i', taken, h⟩ := h
  cases lower with
  | true =>
    obtain ⟨-, rfl⟩ := pure_eq_ok.mp h
    obtain ⟨b, isMark, rfl⟩ := of_take?_eq_ok_true taken
    exact ⟨b, .inl (ofUInt8_inj.mp isMark), rfl⟩
  | false =>
    obtain rfl := of_take?_eq_ok_false taken
    obtain ⟨b, isMark, rfl⟩ := of_take?_eq_ok_true h
    exact ⟨b, .inr (ofUInt8_inj.mp isMark), rfl⟩

theorem of_exponentMark_eq_ok_false (h : exponentMark i = .ok (false, j)) : i = j := by
  replace h := bind_eq_ok.mp h
  obtain ⟨lower, i', taken, h⟩ := h
  cases lower with
  | true => cases (pure_eq_ok.mp h).1
  | false =>
    obtain rfl := of_take?_eq_ok_false taken
    exact of_take?_eq_ok_false h

theorem of_exponent_eq_ok {power : Option Int} (h : exponent atEnd i = .ok (power, j)) :
    ∃ e, ExponentText e power ∧ i = e ++ j := by
  replace h := bind_eq_ok.mp h
  obtain ⟨marked, i', taken, h⟩ := h
  cases marked with
  | false =>
    obtain rfl := of_exponentMark_eq_ok_false taken
    obtain ⟨rfl, rfl⟩ := pure_eq_ok.mp h
    exact ⟨[], .absent, rfl⟩
  | true =>
    obtain ⟨mark, hm, rfl⟩ := of_exponentMark_eq_ok_true taken
    replace h := bind_eq_ok.mp h
    obtain ⟨minus, i'', taken, h⟩ := h
    cases minus with
    | true =>
      obtain ⟨b, isMinus, rfl⟩ := of_take?_eq_ok_true taken
      obtain rfl : b = 0x2d := ofUInt8_inj.mp isMinus
      replace h := bind_eq_ok.mp h
      obtain ⟨ds, i', read, h⟩ := h
      obtain ⟨digits, rfl⟩ := of_someDigits_eq_ok read
      obtain ⟨rfl, rfl⟩ := pure_eq_ok.mp h
      exact ⟨mark :: 0x2d :: ds, .minus hm digits, rfl⟩
    | false =>
      obtain rfl := of_take?_eq_ok_false taken
      replace h := bind_eq_ok.mp h
      obtain ⟨plus, i', taken, h⟩ := h
      replace h := bind_eq_ok.mp h
      obtain ⟨ds, i'', read, h⟩ := h
      obtain ⟨digits, rfl⟩ := of_someDigits_eq_ok read
      obtain ⟨rfl, rfl⟩ := pure_eq_ok.mp h
      cases plus with
      | true =>
        obtain ⟨b, isPlus, rfl⟩ := of_take?_eq_ok_true taken
        obtain rfl : b = 0x2b := ofUInt8_inj.mp isPlus
        exact ⟨mark :: 0x2b :: ds, .plus hm digits, rfl⟩
      | false =>
        obtain rfl := of_take?_eq_ok_false taken
        exact ⟨mark :: ds, .plain hm digits, rfl⟩

/-- The parts of a number are taken off the input one after the other. -/
inductive TakesParts (atEnd : Cause) (i : List UInt8) (minus : Bool) (whole : List UInt8)
    (fraction : Option (List UInt8)) (power : Option Int) (j : List UInt8) : Prop
  | mk {i₁ i₂ i₃ : List UInt8} (sign : take? '-' i = .ok (minus, i₁))
      (digits : wholeDigits atEnd i₁ = .ok (whole, i₂))
      (after : fractionDigits atEnd i₂ = .ok (fraction, i₃))
      (last : exponent atEnd i₃ = .ok (power, j))

section Parts

variable {minus : Bool} {whole : List UInt8} {fraction : Option (List UInt8)} {power : Option Int}
  {n : Number} {t rest : List UInt8}

theorem TakesParts.exists_text (h : TakesParts atEnd i minus whole fraction power j) :
    ∃ t, NumberText minus whole fraction power t ∧ i = t ++ j := by
  obtain ⟨sign, digits, after, last⟩ := h
  obtain ⟨isWhole, zero, rfl⟩ := of_wholeDigits_eq_ok digits
  obtain ⟨f, hf, rfl⟩ := of_fractionDigits_eq_ok after
  obtain ⟨e, he, rfl⟩ := of_exponent_eq_ok last
  refine ⟨_, .mk isWhole zero hf he, ?_⟩
  cases minus with
  | false =>
    obtain rfl := of_take?_eq_ok_false sign
    simp
  | true =>
    obtain ⟨b, isMinus, rfl⟩ := of_take?_eq_ok_true sign
    obtain rfl : b = 0x2d := ofUInt8_inj.mp isMinus
    simp

theorem number_eq (h : TakesParts .endInValue i minus whole fraction power j) :
    number i = numberOf minus whole fraction power j := by
  obtain ⟨sign, digits, after, last⟩ := h
  rw [number, bind_ok sign, bind_ok digits, bind_ok after, bind_ok last]

theorem skipNumber_eq_ok : skipNumber i = .ok ((), j) ↔
    ∃ minus whole fraction power, TakesParts .invalidNumber i minus whole fraction power j := by
  constructor
  · intro h
    obtain ⟨minus, i₁, sign, h₁⟩ := bind_eq_ok.mp h
    obtain ⟨whole, i₂, digits, h₂⟩ := bind_eq_ok.mp h₁
    obtain ⟨fraction, i₃, after, h₃⟩ := bind_eq_ok.mp h₂
    obtain ⟨power, i₄, last, h₄⟩ := bind_eq_ok.mp h₃
    obtain ⟨-, rfl⟩ := pure_eq_ok.mp h₄
    exact ⟨minus, whole, fraction, power, sign, digits, after, last⟩
  · rintro ⟨minus, whole, fraction, power, sign, digits, after, last⟩
    rw [skipNumber, bind_ok sign, bind_ok digits, bind_ok after, bind_ok last]
    rfl

/-- **Where a number is read, a text of the grammar is taken**, and it has the value that the number
has in every place. -/
theorem of_number_eq_ok (h : number i = .ok (n, j)) :
    ∃ minus whole fraction power, TakesParts .endInValue i minus whole fraction power j ∧
      ∀ rest, numberOf minus whole fraction power rest = .ok (n, rest) := by
  obtain ⟨minus, i₁, sign, h₁⟩ := bind_eq_ok.mp h
  obtain ⟨whole, i₂, digits, h₂⟩ := bind_eq_ok.mp h₁
  obtain ⟨fraction, i₃, after, h₃⟩ := bind_eq_ok.mp h₂
  obtain ⟨power, i₄, last, h₄⟩ := bind_eq_ok.mp h₃
  -- The value is in the parts, and finding it takes nothing off the input.
  have value := numberOf_rest h₄
  obtain rfl : i₄ = j := (Prod.mk.inj (Except.ok.inj ((value i₄).symm.trans h₄))).2
  exact ⟨minus, whole, fraction, power, ⟨sign, digits, after, last⟩, value⟩

/-- What another reader succeeds with as well, whatever its faults are. -/
def Within {α : Type} (r r' : Reader α) : Prop := ∀ i out, r i = .ok out → r' i = .ok out

namespace Within

variable {β : Type} {r r' : Reader α}

theorem refl (r : Reader α) : Within r r := fun _ _ h ↦ h

theorem bind {f f' : α → Reader β} (first : Within r r') (second : ∀ a, Within (f a) (f' a)) :
    Within (r >>= f) (r' >>= f') := by
  intro i out h
  obtain ⟨a, j, ha, hb⟩ := bind_eq_ok.mp h
  exact bind_eq_ok.mpr ⟨a, j, first i _ ha, second a j out hb⟩

theorem ite {p : Prop} [Decidable p] {s s' : Reader α} (yes : Within r r') (no : Within s s') :
    Within (if p then r else s) (if p then r' else s') := by
  split
  · exact yes
  · exact no

end Within

section Causes

variable (atEnd atEnd' : Cause)

theorem someDigits_within : Within (someDigits atEnd) (someDigits atEnd') := by
  refine .bind (.refl peek) fun c? ↦ ?_
  cases c? with
  | none => exact nofun
  | some c => exact .refl _

theorem wholeDigits_within : Within (wholeDigits atEnd) (wholeDigits atEnd') :=
  .bind (someDigits_within atEnd atEnd') fun _ ↦ .refl _

theorem fractionDigits_within : Within (fractionDigits atEnd) (fractionDigits atEnd') :=
  .bind (.refl _) fun _ ↦
    .ite (.bind (someDigits_within atEnd atEnd') fun _ ↦ .refl _) (.refl _)

theorem exponent_within : Within (exponent atEnd) (exponent atEnd') := by
  refine .bind (.refl _) fun _ ↦ .ite (.bind (.refl _) fun minus ↦ ?_) (.refl _)
  refine .ite (.bind (someDigits_within atEnd atEnd') fun _ ↦ .refl _) ?_
  exact .bind (.refl _) fun _ ↦ .bind (someDigits_within atEnd atEnd') fun _ ↦ .refl _

end Causes

/-- Why a number might have stopped does not matter to one that does not. -/
theorem TakesParts.within {atEnd' : Cause}
    (h : TakesParts atEnd i minus whole fraction power j) :
    TakesParts atEnd' i minus whole fraction power j := by
  obtain ⟨sign, digits, after, last⟩ := h
  exact ⟨sign, wholeDigits_within atEnd atEnd' _ _ digits,
    fractionDigits_within atEnd atEnd' _ _ after, exponent_within atEnd atEnd' _ _ last⟩

theorem skipNumber_of_number (h : number i = .ok (n, j)) : skipNumber i = .ok ((), j) := by
  obtain ⟨minus, whole, fraction, power, parts, -⟩ := of_number_eq_ok h
  exact skipNumber_eq_ok.mpr ⟨minus, whole, fraction, power, parts.within⟩

theorem of_skipNumber_eq_ok (h : skipNumber i = .ok ((), j)) : ∃ t, IsNumber t ∧ i = t ++ j := by
  obtain ⟨minus, whole, fraction, power, parts⟩ := skipNumber_eq_ok.mp h
  obtain ⟨t, text, same⟩ := parts.exists_text
  exact ⟨t, ⟨minus, whole, fraction, power, text⟩, same⟩

/-! ## Where a text ends -/

/-- What comes after a text does not go on with it. Only a number could be gone on with, and so
where one ends is said by what passes over it. -/
def Ends (t rest : List UInt8) : Prop := IsNumber t → skipNumber (t ++ rest) = .ok ((), rest)

theorem Apart.ends (apart : Apart rest) (t : List UInt8) : Ends t rest := by
  rintro ⟨minus, whole, fraction, power, text⟩
  exact skipNumber_ok text apart

/-- **A number is taken apart where it ends.** -/
theorem Ends.number_ok (h : Ends t rest) (text : NumberText minus whole fraction power t) :
    number (t ++ rest) = numberOf minus whole fraction power rest := by
  obtain ⟨minus', whole', fraction', power', parts⟩ :=
    skipNumber_eq_ok.mp (h ⟨minus, whole, fraction, power, text⟩)
  obtain ⟨t', text', same⟩ := parts.exists_text
  -- A number is written from its parts in one way only, so these are the parts that were taken.
  obtain rfl := List.append_cancel_right same
  obtain ⟨rfl, rfl, rfl, rfl⟩ := text.unique text'
  exact number_eq parts.within

end Parts

end IdlLinker.Json.Reader
