import IdlLinker.Proofs.Json.Text
import Mathlib.Data.List.Basic
import Mathlib.Data.List.Flatten

/-!
# Numbers in a document

A number is a sign, digits, perhaps a point with digits and perhaps an exponent. `NumberText` is
this grammar, with the parts that a text of it has. The reader takes such a text apart into the same
parts, wherever what comes after it is `Apart`; whether it is read or passed over makes no
difference to how much is taken.

From this an integer that fits into sixty-four bits is read back from its decimal form.

What comes after a number has to be kept away from it, for a number has no closing mark: `1` and `2`
side by side are twelve. `Apart` says what does not go on with a number, and everything that may
come after a value in a document is apart. The lemmas on the parts of a number are in the order of
the reader, each with the condition on what follows that it needs, and `number_ok` chains them.
-/

namespace IdlLinker.Json

open Reader

/-! ## Digits -/

/-- A text of digits, at least one. -/
def Digits (ds : List UInt8) : Prop := ds ≠ [] ∧ ∀ b ∈ ds, isDigit (Char.ofUInt8 b) = true

theorem digits_ok {ds rest : List UInt8} (h : ∀ b ∈ ds, isDigit (Char.ofUInt8 b) = true)
    (stop : ∀ b ∈ rest.head?, isDigit (Char.ofUInt8 b) = false) :
    digits (ds ++ rest) = .ok (ds, rest) := by
  have stops : rest.takeWhile (fun b ↦ isDigit (Char.ofUInt8 b)) = [] ∧
      rest.dropWhile (fun b ↦ isDigit (Char.ofUInt8 b)) = rest := by
    cases rest with
    | nil => exact ⟨rfl, rfl⟩
    | cons b rest =>
      have noDigit : ¬isDigit (Char.ofUInt8 b) = true := by simp [stop b rfl]
      exact ⟨List.takeWhile_cons_of_neg noDigit, List.dropWhile_cons_of_neg noDigit⟩
  rw [digits, List.takeWhile_append_of_pos h, List.dropWhile_append_of_pos h, stops.1, stops.2,
    List.append_nil]

theorem someDigits_ok {ds rest : List UInt8} {atEnd : Cause} (h : Digits ds)
    (stop : ∀ b ∈ rest.head?, isDigit (Char.ofUInt8 b) = false) :
    someDigits atEnd (ds ++ rest) = .ok (ds, rest) := by
  obtain ⟨b, ds, rfl⟩ := List.exists_cons_of_ne_nil h.1
  rw [someDigits, List.cons_append, bind_ok (peek_cons _ _)]
  dsimp only
  rw [if_pos (h.2 b List.mem_cons_self), ← List.cons_append, digits_ok h.2 stop]

def decimal (n : Nat) : List UInt8 := (Nat.toDigits 10 n).map Char.toUInt8

theorem isDigit_eq (c : Char) : isDigit c = c.isDigit := by
  rw [isDigit, Char.isDigit, Bool.eq_iff_iff]
  simp [Char.le_def, UInt32.le_iff_toNat_le]

theorem utf8_digit {c : Char} (h : c.isDigit) :
    String.utf8EncodeChar c = [c.toUInt8] ∧ Char.ofUInt8 c.toUInt8 = c := by
  have bound : 48 ≤ c.toNat ∧ c.toNat ≤ 57 := by
    simp only [Char.isDigit, ge_iff_le, Bool.and_eq_true, decide_eq_true_eq,
      UInt32.le_iff_toNat_le] at h
    exact h
  have toNat : c.toUInt8.toNat = c.toNat := by
    exact (UInt32.toNat_toUInt8 c.val).trans (Nat.mod_eq_of_lt (show c.toNat < 256 by omega))
  refine ⟨?_, Char.toNat_inj.mp (by rw [toNat_ofUInt8, toNat])⟩
  rw [String.utf8EncodeChar, if_pos (show c.val.toNat ≤ 0x7f from Nat.le_trans bound.2 (by decide))]
  exact congrArg (fun b ↦ [b]) (UInt8.ofNat_uInt32ToNat c.val)

theorem isDigit_of_mem_toDigits {n : Nat} {c : Char} (h : c ∈ Nat.toDigits 10 n) : c.isDigit :=
  Nat.isDigit_of_mem_toDigits (by decide) (by decide) h

theorem bytes_of_digits {cs : List Char} (h : ∀ c ∈ cs, c.isDigit) :
    bytes (String.ofList cs) = cs.map Char.toUInt8 := by
  rw [bytes_ofList, List.map_eq_flatMap]
  exact List.flatMap_congr fun c hc ↦ (utf8_digit (h c hc)).1

theorem digits_map {cs : List Char} (nonempty : cs ≠ []) (h : ∀ c ∈ cs, c.isDigit) :
    Digits (cs.map Char.toUInt8) := by
  refine ⟨by simpa using nonempty, fun b hb ↦ ?_⟩
  obtain ⟨c, hc, rfl⟩ := List.mem_map.mp hb
  rw [isDigit_eq, (utf8_digit (h c hc)).2, h c hc]

theorem digits_decimal (n : Nat) : Digits (decimal n) :=
  digits_map Nat.toDigits_ne_nil fun _ ↦ isDigit_of_mem_toDigits

theorem bytes_repr (n : Nat) : bytes (Nat.repr n) = decimal n := by
  rw [Nat.repr_eq_ofList_toDigits, bytes_of_digits fun _ ↦ isDigit_of_mem_toDigits, decimal]

/-- The first digit of a number is not a zero, unless it is the only one. -/
theorem head?_toDigits {n : Nat} (h : 0 < n) : (Nat.toDigits 10 n).head? ≠ some '0' := by
  induction n using Nat.strongRecOn with
  | ind n ih =>
    rcases Nat.lt_or_ge n 10 with lt | ge
    · rw [Nat.toDigits_of_lt_base lt]
      simpa using Nat.pos_iff_ne_zero.mp h
    · rw [Nat.toDigits_of_base_le (by decide) ge, List.head?_append,
        List.head?_eq_some_head Nat.toDigits_ne_nil, Option.some_or,
        ← List.head?_eq_some_head]
      exact ih (n / 10) (Nat.div_lt_self h (by decide)) (Nat.div_pos ge (by decide))

theorem digitsValue_map {cs : List Char} (h : ∀ c ∈ cs, c.isDigit) :
    digitsValue (cs.map Char.toUInt8) = Nat.ofDigitChars 10 cs 0 := by
  rw [digitsValue, Nat.ofDigitChars_eq_foldl, List.foldl_map]
  refine List.foldl_ext _ _ _ fun n c hc ↦ ?_
  have toNat : c.toUInt8.toNat = c.toNat := by
    rw [← toNat_ofUInt8, (utf8_digit (h c hc)).2]
  rw [toNat]
  rfl

theorem digitsValue_decimal (n : Nat) : digitsValue (decimal n) = n := by
  rw [decimal, digitsValue_map fun _ ↦ isDigit_of_mem_toDigits, Nat.ofDigitChars_ten_toDigits]

/-! ## The grammar of numbers -/

/-- A point and digits, or nothing. -/
inductive FractionText : List UInt8 → Option (List UInt8) → Prop where
  | absent : FractionText [] none
  | digits {ds : List UInt8} (h : Digits ds) : FractionText (0x2e :: ds) (some ds)

/-- The mark of an exponent, a sign or none, and digits; or nothing. -/
inductive ExponentText : List UInt8 → Option Int → Prop where
  | absent : ExponentText [] none
  | plain {mark : UInt8} {ds : List UInt8} (hm : mark = 0x65 ∨ mark = 0x45) (h : Digits ds) :
      ExponentText (mark :: ds) (some (digitsValue ds))
  | plus {mark : UInt8} {ds : List UInt8} (hm : mark = 0x65 ∨ mark = 0x45) (h : Digits ds) :
      ExponentText (mark :: 0x2b :: ds) (some (digitsValue ds))
  | minus {mark : UInt8} {ds : List UInt8} (hm : mark = 0x65 ∨ mark = 0x45) (h : Digits ds) :
      ExponentText (mark :: 0x2d :: ds) (some (-(digitsValue ds : Int)))

/-- The text of a number with its parts. No zero stands before another digit. -/
inductive NumberText (minus : Bool) (whole : List UInt8) (fraction : Option (List UInt8))
    (power : Option Int) : List UInt8 → Prop where
  | mk {f e : List UInt8} (hw : Digits whole) (zero : whole.head? = some 0x30 → whole.length = 1)
      (hf : FractionText f fraction) (he : ExponentText e power) :
      NumberText minus whole fraction power
        ((if minus then [0x2d] else []) ++ (whole ++ (f ++ e)))

def IsNumber (t : List UInt8) : Prop :=
  ∃ minus whole fraction power, NumberText minus whole fraction power t

/-! ## Taking a number apart -/

theorem not_digit_of_mark {mark : UInt8} (h : mark = 0x65 ∨ mark = 0x45) :
    isDigit (Char.ofUInt8 mark) = false ∧ Char.ofUInt8 mark ≠ '.' := by
  rcases h with rfl | rfl <;> decide

theorem not_sign_of_digit {b : UInt8} (h : isDigit (Char.ofUInt8 b) = true) :
    Char.ofUInt8 b ≠ '-' ∧ Char.ofUInt8 b ≠ '+' ∧ isBlank b = false := by
  refine ⟨fun eq ↦ ?_, fun eq ↦ ?_, ?_⟩
  · rw [eq] at h
    exact absurd h (by decide)
  · rw [eq] at h
    exact absurd h (by decide)
  · refine Bool.eq_false_iff.mpr fun blank ↦ ?_
    simp only [isBlank, Bool.or_eq_true, beq_iff_eq] at blank
    rcases blank with ((rfl | rfl) | rfl) | rfl <;> exact absurd h (by decide)

theorem ExponentText.stop {e rest : List UInt8} {power : Option Int} (h : ExponentText e power)
    (apart : Apart rest) :
    ∀ b ∈ (e ++ rest).head?, isDigit (Char.ofUInt8 b) = false ∧ Char.ofUInt8 b ≠ '.' := by
  cases h with
  | absent => exact fun b hb ↦ ⟨(apart b hb).1, (apart b hb).2.1⟩
  | plain hm | plus hm | minus hm =>
    rintro b ⟨⟩
    exact not_digit_of_mark hm

theorem FractionText.stop {f tail : List UInt8} {fraction : Option (List UInt8)}
    (h : FractionText f fraction)
    (stop : ∀ b ∈ tail.head?, isDigit (Char.ofUInt8 b) = false ∧ Char.ofUInt8 b ≠ '.') :
    ∀ b ∈ (f ++ tail).head?, isDigit (Char.ofUInt8 b) = false := by
  cases h with
  | absent => exact fun b hb ↦ (stop b hb).1
  | digits =>
    rintro b ⟨⟩
    decide

variable {minus : Bool} {whole t rest : List UInt8} {fraction : Option (List UInt8)}
  {power : Option Int} {atEnd : Cause}

theorem sign_ok (minus : Bool) {tail : List UInt8} (digits : Digits whole) :
    take? '-' ((if minus then [0x2d] else []) ++ (whole ++ tail)) =
      .ok (minus, whole ++ tail) := by
  obtain ⟨b, ds, rfl⟩ := List.exists_cons_of_ne_nil digits.1
  cases minus with
  | false =>
    refine take?_of_ne ?_
    rintro b' ⟨⟩
    exact (not_sign_of_digit (digits.2 b List.mem_cons_self)).1
  | true => exact take?_of_eq rfl

theorem wholeDigits_ok (digits : Digits whole)
    (zero : whole.head? = some 0x30 → whole.length = 1)
    (stop : ∀ b ∈ rest.head?, isDigit (Char.ofUInt8 b) = false) :
    wholeDigits atEnd (whole ++ rest) = .ok (whole, rest) := by
  rw [wholeDigits, bind_ok (someDigits_ok digits stop), if_neg]
  · rfl
  · rintro ⟨first, more⟩
    exact absurd (zero first) (Nat.ne_of_gt more)

theorem fractionDigits_ok {f : List UInt8} (h : FractionText f fraction)
    (stop : ∀ b ∈ rest.head?, isDigit (Char.ofUInt8 b) = false ∧ Char.ofUInt8 b ≠ '.') :
    fractionDigits atEnd (f ++ rest) = .ok (fraction, rest) := by
  cases h with
  | absent => exact bind_ok (take?_of_ne fun b hb ↦ (stop b hb).2)
  | @digits ds digits =>
    have point : take? '.' (0x2e :: (ds ++ rest)) = .ok (true, ds ++ rest) := take?_of_eq rfl
    rw [fractionDigits, List.cons_append, bind_ok point, if_pos rfl,
      bind_ok (someDigits_ok digits fun b hb ↦ (stop b hb).1)]
    rfl

theorem exponentMark_ok {mark : UInt8} (h : mark = 0x65 ∨ mark = 0x45) (rest : List UInt8) :
    exponentMark (mark :: rest) = .ok (true, rest) := by
  rcases h with rfl | rfl
  · have lower : take? 'e' (0x65 :: rest) = .ok (true, rest) := take?_of_eq rfl
    exact bind_ok lower
  · have other : take? 'e' (0x45 :: rest) = .ok (false, 0x45 :: rest) :=
      take?_of_ne (by rintro b ⟨⟩; decide)
    have upper : take? 'E' (0x45 :: rest) = .ok (true, rest) := take?_of_eq rfl
    exact (bind_ok other).trans upper

theorem exponent_ok {e : List UInt8} (h : ExponentText e power) (apart : Apart rest) :
    exponent atEnd (e ++ rest) = .ok (power, rest) := by
  have read {ds : List UInt8} (digits : Digits ds) :
      someDigits atEnd (ds ++ rest) = .ok (ds, rest) :=
    someDigits_ok digits fun b hb ↦ (apart b hb).1
  cases h with
  | absent =>
    have noMark : exponentMark rest = .ok (false, rest) :=
      (bind_ok (take?_of_ne fun b hb ↦ (apart b hb).2.2.1)).trans
        (take?_of_ne fun b hb ↦ (apart b hb).2.2.2)
    exact bind_ok noMark
  | @plain mark ds hm digits =>
    obtain ⟨b, ds, rfl⟩ := List.exists_cons_of_ne_nil digits.1
    have unsigned := not_sign_of_digit (digits.2 b List.mem_cons_self)
    have noMinus : take? '-' (b :: ds ++ rest) = .ok (false, b :: ds ++ rest) :=
      take?_of_ne (by rintro b' ⟨⟩; exact unsigned.1)
    have noPlus : take? '+' (b :: ds ++ rest) = .ok (false, b :: ds ++ rest) :=
      take?_of_ne (by rintro b' ⟨⟩; exact unsigned.2.1)
    rw [exponent, List.cons_append, bind_ok (exponentMark_ok hm _), if_pos rfl, bind_ok noMinus,
      if_neg Bool.false_ne_true, bind_ok noPlus]
    exact bind_ok (read digits)
  | @plus mark ds hm digits =>
    have noMinus : take? '-' (0x2b :: ds ++ rest) = .ok (false, 0x2b :: ds ++ rest) :=
      take?_of_ne (by rintro b' ⟨⟩; decide)
    have plus : take? '+' (0x2b :: ds ++ rest) = .ok (true, ds ++ rest) := take?_of_eq rfl
    rw [exponent, List.cons_append, bind_ok (exponentMark_ok hm _), if_pos rfl, bind_ok noMinus,
      if_neg Bool.false_ne_true, bind_ok plus]
    exact bind_ok (read digits)
  | @minus mark ds hm digits =>
    have minus : take? '-' (0x2d :: ds ++ rest) = .ok (true, ds ++ rest) := take?_of_eq rfl
    rw [exponent, List.cons_append, bind_ok (exponentMark_ok hm _), if_pos rfl, bind_ok minus,
      if_pos rfl]
    exact bind_ok (read digits)

/-- **A number is taken apart into its parts**, and nothing else is taken. -/
theorem number_ok (h : NumberText minus whole fraction power t) (apart : Apart rest) :
    number (t ++ rest) = numberOf minus whole fraction power rest := by
  obtain @⟨f, e, digits, zero, hf, he⟩ := h
  have stop := he.stop apart
  rw [List.append_assoc, List.append_assoc, List.append_assoc, number,
    bind_ok (sign_ok minus digits),
    bind_ok (wholeDigits_ok digits zero (hf.stop stop)), bind_ok (fractionDigits_ok hf stop),
    bind_ok (exponent_ok he apart)]

theorem skipNumber_ok (h : NumberText minus whole fraction power t) (apart : Apart rest) :
    skipNumber (t ++ rest) = .ok ((), rest) := by
  obtain @⟨f, e, digits, zero, hf, he⟩ := h
  have stop := he.stop apart
  rw [List.append_assoc, List.append_assoc, List.append_assoc, skipNumber,
    bind_ok (sign_ok minus digits), bind_ok (wholeDigits_ok digits zero (hf.stop stop)),
    bind_ok (fractionDigits_ok hf stop), bind_ok (exponent_ok he apart)]
  rfl

theorem NumberText.unique {minus' : Bool} {whole' : List UInt8} {fraction' : Option (List UInt8)}
    {power' : Option Int} (h : NumberText minus whole fraction power t)
    (h' : NumberText minus' whole' fraction' power' t) :
    minus = minus' ∧ whole = whole' ∧ fraction = fraction' ∧ power = power' := by
  obtain @⟨f, e, digits, zero, hf, he⟩ := h
  generalize same : (if minus = true then [0x2d] else []) ++ (whole ++ (f ++ e)) = t at h'
  obtain @⟨f', e', digits', zero', hf', he'⟩ := h'
  -- Each part is what the reader of this part takes, and it leaves the others.
  have sign : take? '-' (_ ++ (whole ++ (f ++ e))) = _ := sign_ok minus digits
  rw [same, sign_ok minus' digits'] at sign
  obtain ⟨rfl, afterSign⟩ := Prod.mk.inj (Except.ok.inj sign)
  have stop := he.stop .nil
  have stop' := he'.stop .nil
  rw [List.append_nil] at stop stop'
  have wholes : wholeDigits .endInValue _ = _ := wholeDigits_ok digits zero (hf.stop stop)
  rw [← afterSign, wholeDigits_ok digits' zero' (hf'.stop stop')] at wholes
  obtain ⟨rfl, afterWhole⟩ := Prod.mk.inj (Except.ok.inj wholes)
  have fractions : fractionDigits .endInValue _ = _ := fractionDigits_ok hf stop
  rw [← afterWhole, fractionDigits_ok hf' stop'] at fractions
  obtain ⟨rfl, rfl⟩ := Prod.mk.inj (Except.ok.inj fractions)
  have powers : exponent .endInValue _ = _ := exponent_ok he .nil
  rw [exponent_ok he' .nil] at powers
  exact ⟨rfl, rfl, rfl, (Prod.mk.inj (Except.ok.inj powers)).1.symm⟩

theorem NumberText.start (h : NumberText minus whole fraction power t) :
    ∃ b u, t = b :: u ∧ isBlank b = false ∧
      (Char.ofUInt8 b = '-' ∨ isDigit (Char.ofUInt8 b) = true) := by
  obtain @⟨f, e, digits, -, -, -⟩ := h
  cases minus with
  | false =>
    obtain ⟨b, ds, rfl⟩ := List.exists_cons_of_ne_nil digits.1
    have digit := digits.2 b List.mem_cons_self
    exact ⟨b, _, rfl, (not_sign_of_digit digit).2.2, Or.inr digit⟩
  | true => exact ⟨0x2d, _, rfl, by decide, Or.inl (by decide)⟩

/-- What begins like a number is none of the other kinds of value. -/
theorem ne_of_startsNumber {c : Char} (start : c = '-' ∨ isDigit c = true) :
    c ≠ 'n' ∧ c ≠ 't' ∧ c ≠ 'f' ∧ c ≠ '"' ∧ c ≠ '[' ∧ c ≠ '\x7b' := by
  have other {c' : Char} (h : (c' == '-' || isDigit c') = false) : c ≠ c' := by
    rintro rfl
    simp only [Bool.or_eq_false_iff, beq_eq_false_iff_ne] at h
    exact start.elim h.1 (Bool.eq_false_iff.mp h.2)
  exact ⟨other rfl, other rfl, other rfl, other rfl, other rfl, other rfl⟩

/-- A number where one is expected is taken apart, blanks before it dropped. -/
theorem expectNumber_ok {gap : List UInt8} (expected : String)
    (h : NumberText minus whole fraction power t) (blank : Blank gap) (apart : Apart rest) :
    expectNumber expected (gap ++ (t ++ rest)) = numberOf minus whole fraction power rest := by
  rw [← number_ok h apart]
  obtain ⟨b, u, rfl, hb, start⟩ := h.start
  rw [List.cons_append, expectNumber, bind_ok (start_ok blank hb), if_pos start]

theorem NumberText.solid (h : NumberText minus whole fraction power t) : Solid t := by
  obtain ⟨b, u, rfl, hb, start⟩ := h.start
  refine ⟨b, u, rfl, hb, fun eq ↦ ?_⟩
  rw [eq] at start
  exact absurd start (by decide)

/-- The value of a number does not depend on what comes after it. -/
theorem numberOf_rest {n : Number} {i j : List UInt8}
    (h : numberOf minus whole fraction power i = .ok (n, j)) (rest : List UInt8) :
    numberOf minus whole fraction power rest = .ok (n, rest) := by
  rw [numberOf] at h ⊢
  cases found : numberOf? minus whole fraction power with
  | none =>
    rw [found] at h
    cases h
  | some m =>
    rw [found] at h
    cases h
    rfl

/-! ## Integers -/

theorem numberText_toString (n : Int) :
    NumberText (decide (n < 0)) (decimal n.natAbs) none none (bytes (toString n)) := by
  have zero : (decimal n.natAbs).head? = some 0x30 → (decimal n.natAbs).length = 1 := by
    intro first
    rcases Nat.eq_zero_or_pos n.natAbs with eq | pos
    · rw [eq]
      rfl
    · rw [decimal, List.head?_map, Option.map_eq_some_iff] at first
      obtain ⟨c, hc, eq⟩ := first
      have digit := (utf8_digit (isDigit_of_mem_toDigits (List.mem_of_head? hc))).2
      rw [eq] at digit
      subst digit
      exact absurd hc (head?_toDigits pos)
  have text := @NumberText.mk (decide (n < 0)) _ _ _ _ _ (digits_decimal n.natAbs) zero .absent
    .absent
  have signed : bytes (toString n) =
      (if decide (n < 0) then [0x2d] else []) ++ (decimal n.natAbs ++ ([] ++ [])) := by
    rw [List.append_nil, List.append_nil]
    cases n with
    | ofNat m =>
      rw [if_neg (by simp), List.nil_append]
      exact bytes_repr m
    | negSucc m =>
      rw [if_pos (by simp)]
      have dash : bytes "-" = [0x2d] := bytes_eq "-"
      change bytes ("-" ++ Nat.repr (m + 1)) = _
      rw [bytes_append, dash, bytes_repr]
      rfl
  rwa [signed]

/-- An integer of sixty-four bits, signed or not, has the value of its decimal form. -/
theorem numberOf_integer {n : Int} (least : -(Nat.pow 2 63 : Nat) ≤ n)
    (greatest : n < (Nat.pow 2 64 : Nat)) (rest : List UInt8) :
    numberOf (decide (n < 0)) (decimal n.natAbs) none none rest = .ok (.integer n, rest) := by
  have found : numberOf? (decide (n < 0)) (decimal n.natAbs) none none = some (.integer n) := by
    rw [numberOf?, digitsValue_decimal]
    by_cases negative : n < 0
    · have bounds : 0 < n.natAbs ∧ n.natAbs ≤ Nat.pow 2 63 := by omega
      rw [if_pos (by simpa using negative), if_pos bounds, show -(n.natAbs : Int) = n by omega]
    · have bound : n.natAbs < Nat.pow 2 64 := by omega
      rw [if_neg (by simpa using negative), if_pos bound, show (n.natAbs : Int) = n by omega]
  rw [numberOf, found]
  rfl

/-- **An integer is read back from its decimal form.** -/
theorem number_toString {n : Int} (least : -(Nat.pow 2 63 : Nat) ≤ n)
    (greatest : n < (Nat.pow 2 64 : Nat)) (apart : Apart rest) :
    number (bytes (toString n) ++ rest) = .ok (.integer n, rest) :=
  (number_ok (numberText_toString n) apart).trans (numberOf_integer least greatest rest)

end IdlLinker.Json
