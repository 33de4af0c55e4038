import IdlLinker.Decimal.Scaling
import IdlLinker.Proofs.Decimal.Rounding

/-!
# Decimals that machine arithmetic reads exactly

Reading a decimal in machine arithmetic rounds up to three times: the digits, the power of ten, and
the product or quotient of both. If the digits are a number of the format, and if the power of ten
is one, only the last of these steps rounds, and it rounds the number that the decimal stands for.
So the decimal is read as the word nearest to it (`Numeral.read?_eq_ofDecimal`).

Integers below `2 ^ 53` are numbers of the format, and powers of ten are up to the twenty-second.
What people write by hand is nearly always within these bounds.
-/

namespace IdlLinker.Decimal

namespace Binary

variable {f : Format} {negative : Bool}

/-! ## Words by their magnitude -/

theorem signed_ofMagnitude {m : Nat} (h : m < 2 ^ (f.width - 1)) (negative' : Bool) :
    (ofMagnitude negative m : Binary f).signed negative' = ofMagnitude negative' m := by
  rw [signed, magnitude_ofMagnitude h]

/-- The number that a word stands for whose significand has the hidden bit. -/
theorem value_ofMagnitude {k m : Nat} (hidden : 2 ^ f.fractionBits ≤ m)
    (few : m < 2 ^ (f.fractionBits + 1)) (below : k * 2 ^ f.fractionBits + m < 2 ^ (f.width - 1)) :
    (ofMagnitude negative (k * 2 ^ f.fractionBits + m) : Binary f).value =
      m * 2 ^ (f.finest + k) := by
  have pos := Nat.two_pow_pos f.fractionBits
  rw [pow_succ] at few
  have magnitude : (ofMagnitude negative (k * 2 ^ f.fractionBits + m) : Binary f).magnitude = _ :=
    magnitude_ofMagnitude below
  obtain ⟨r, rfl⟩ := Nat.exists_eq_add_of_le hidden
  have field : (ofMagnitude negative (k * 2 ^ f.fractionBits + (2 ^ f.fractionBits + r)) :
      Binary f).exponentField = k + 1 := by
    rw [exponentField, magnitude]
    change _ / 2 ^ f.fractionBits = _
    rw [← add_assoc, ← Nat.succ_mul, Nat.mul_comm, Nat.mul_add_div pos,
      Nat.div_eq_of_lt (by omega), Nat.add_zero]
  have fraction : (ofMagnitude negative (k * 2 ^ f.fractionBits + (2 ^ f.fractionBits + r)) :
      Binary f).fractionField = r := by
    rw [fractionField, magnitude]
    change _ % 2 ^ f.fractionBits = _
    rw [← add_assoc, ← Nat.succ_mul, Nat.mul_comm, Nat.mul_add_mod, Nat.mod_eq_of_lt (by omega)]
  rw [value, significand, grid, field, fraction, if_neg k.succ_ne_zero, Nat.add_sub_cancel]
  rfl

theorem signed_ofRatio (num den : Nat) (negative' : Bool) :
    (ofRatio negative num den : Binary f).signed negative' = ofRatio negative' num den := by
  rw [ofRatio, ofRatio]
  split
  · exact signed_ofMagnitude (Nat.two_pow_pos _) negative'
  · exact signed_ofMagnitude (Nat.lt_of_le_of_lt (Nat.min_le_right _ _) (infinity_lt f)) negative'

/-! ## Steps that do not round -/

/-- A significand of fifty-three bits times a power of two is a number of the format. -/
theorem exists_value_eq {m k : Nat} (pos : 0 < m) (few : m < 2 ^ 53) (near : k ≤ 900) :
    ∃ x : Binary64, x.isFinite = true ∧ x.isZero = false ∧ x.negative = false ∧
      x.value = m * 2 ^ k := by
  obtain ⟨e, least, greatest, short⟩ : ∃ e, 2 ^ e ≤ m ∧ m < 2 ^ (e + 1) ∧ e ≤ 52 :=
    ⟨m.log2, Nat.log2_self_le pos.ne', Nat.lt_log2_self,
      Nat.le_of_lt_succ ((Nat.log2_lt pos.ne').mpr few)⟩
  -- The significand with the hidden bit, and the steps from the finest grid.
  have hidden : 2 ^ 52 ≤ m * 2 ^ (52 - e) := by
    calc 2 ^ 52 = 2 ^ e * 2 ^ (52 - e) := by rw [← pow_add, Nat.add_sub_cancel' short]
      _ ≤ m * 2 ^ (52 - e) := Nat.mul_le_mul_right _ least
  have bits : m * 2 ^ (52 - e) < 2 ^ 53 := by
    calc m * 2 ^ (52 - e) < 2 ^ (e + 1) * 2 ^ (52 - e) :=
          Nat.mul_lt_mul_of_pos_right greatest (Nat.two_pow_pos _)
      _ = 2 ^ 53 := by rw [← pow_add, show e + 1 + (52 - e) = 53 by omega]
  have below : (e + 1022 + k) * 2 ^ 52 + m * 2 ^ (52 - e) < 2047 * 2 ^ 52 := by omega
  have word : (e + 1022 + k) * 2 ^ 52 + m * 2 ^ (52 - e) < 2 ^ 63 := by omega
  refine ⟨ofMagnitude false ((e + 1022 + k) * 2 ^ 52 + m * 2 ^ (52 - e)), ?_, ?_,
    negative_ofMagnitude word, ?_⟩
  · rw [isFinite, magnitude_ofMagnitude word]
    exact decide_eq_true below
  · rw [isZero, magnitude_ofMagnitude word]
    exact decide_eq_false (by omega)
  · refine (value_ofMagnitude (f := Format.double) hidden bits word).trans ?_
    have finest : Format.double.finest = -1074 := rfl
    have two : (2 : ℚ) ≠ 0 := by norm_num
    push_cast
    rw [mul_assoc, ← zpow_natCast, ← zpow_natCast, ← zpow_add₀ two, finest]
    congr 2
    omega

theorem value_ofInt {n : Nat} (few : n < 2 ^ 53) :
    (ofInt n : Binary64).value = n ∧ (ofInt n : Binary64).negative = false := by
  rcases Nat.eq_zero_or_pos n with rfl | pos
  · have zero : (ofInt (0 : Nat) : Binary64).significand = 0 := rfl
    rw [value, zero, Nat.cast_zero, zero_mul]
    exact ⟨rfl, rfl⟩
  · obtain ⟨x, finite, nonzero, positive, same⟩ := exists_value_eq pos few (Nat.zero_le _)
    rw [pow_zero, mul_one] at same
    have word : (ofInt n : Binary64) = x := by
      have sign : decide ((n : Int) < 0) = x.negative := by
        rw [positive]
        exact decide_eq_false (by omega)
      rw [ofInt, sign, Int.natAbs_natCast]
      exact ofRatio_of_value finite nonzero Nat.one_ne_zero (by rw [same, Nat.cast_one, div_one])
    rw [word]
    exact ⟨same, positive⟩

/-- The powers of ten whose fifth part fits into fifty-three bits are numbers of the format. -/
theorem value_powerOfTen {n : Nat} (near : n ≤ 22) :
    (powerOfTen n).value = 10 ^ n ∧ (powerOfTen n).negative = false := by
  have few : 5 ^ n < 2 ^ 53 :=
    Nat.lt_of_le_of_lt (Nat.pow_le_pow_right (by decide) near) (by norm_num)
  obtain ⟨x, finite, nonzero, positive, same⟩ :=
    exists_value_eq (Nat.pow_pos (by decide)) few (show n ≤ 900 by omega)
  have decimal : (⟨1, n⟩ : Numeral).value = x.value := by
    rw [same, Numeral.value]
    push_cast
    rw [one_mul, zpow_natCast, ← mul_pow]
    norm_num
  have word : powerOfTen n = x := by
    have reads := readsBack_of_value finite nonzero decimal
    rw [readsBack, beq_iff_eq, positive] at reads
    exact reads
  rw [word, ← decimal, Numeral.value]
  exact ⟨by simp, positive⟩

/-! ## One step that rounds -/

theorem product_eq {x y : Binary f} (positive : x.negative = false) (positive' : y.negative = false)
    {num den : Nat} (hd : den ≠ 0) (h : (num : ℚ) / den = x.value * y.value) :
    x.product y = ofRatio false num den := by
  rw [product, positive, positive', Bool.xor_self]
  refine ofRatio_congr (Nat.mul_ne_zero x.ratio_ne_zero y.ratio_ne_zero) hd ?_
  rw [h, ← ratio_div x, ← ratio_div y, div_mul_div_comm]
  push_cast
  rfl

theorem quotient_eq {x y : Binary f} (positive : x.negative = false)
    (positive' : y.negative = false) (nonzero : y.value ≠ 0) {num den : Nat} (hd : den ≠ 0)
    (h : (num : ℚ) / den = x.value / y.value) : x.quotient y = ofRatio false num den := by
  have divisor : y.ratio.1 ≠ 0 := by
    intro zero
    rw [← ratio_div, zero, Nat.cast_zero, zero_div] at nonzero
    exact nonzero rfl
  rw [quotient, positive, positive', Bool.xor_self]
  refine ofRatio_congr (Nat.mul_ne_zero x.ratio_ne_zero divisor) hd ?_
  rw [h, ← ratio_div x, ← ratio_div y, div_div_div_eq]
  push_cast
  rfl

theorem roundQuotient_le {n d m : Nat} (h : n < m * d) : roundQuotient n d ≤ m := by
  have low : n / d < m := Nat.div_lt_of_lt_mul (by rwa [Nat.mul_comm])
  have parity : n / d % 2 < 2 := Nat.mod_lt _ (by decide)
  simp only [roundQuotient]
  split
  · omega
  · split <;> omega

theorem quotient_pos {num den : Nat} (hn : num ≠ 0) (hd : den ≠ 0) : (0 : ℚ) < num / den :=
  div_pos (by exact_mod_cast Nat.pos_of_ne_zero hn) (by exact_mod_cast Nat.pos_of_ne_zero hd)

/-- On a grid that leaves no more than fifty-three bits before it, a quotient has no more. -/
theorem scaled_lt {num den : Nat} (hn : num ≠ 0) (hd : den ≠ 0) {grid : Int}
    (coarse : binaryExponent num den - 52 ≤ grid) :
    (scaled num den (-grid)).1 < 2 ^ 53 * (scaled num den (-grid)).2 := by
  have less : ((scaled num den (-grid)).1 : ℚ) / (scaled num den (-grid)).2 < 2 ^ (53 : Int) := by
    rw [scaled_div, zpow_neg, ← div_eq_mul_inv, div_lt_iff₀ (by positivity),
      ← zpow_add₀ (by norm_num)]
    refine (Int.lt_zpow_iff_log_lt (b := 2) (by decide) (quotient_pos hn hd)).mpr ?_
    rw [← binaryExponent_eq_log hn hd]
    omega
  rw [div_lt_iff₀ (by exact_mod_cast (scaled_pos hn hd (-grid)).2)] at less
  exact_mod_cast less

/-- What is well below the greatest number of the format does not overflow when it is rounded. -/
theorem isFinite_ofRatio {negative : Bool} {num den : Nat} (hd : den ≠ 0)
    (h : (num : ℚ) / den < 2 ^ 1023) : (ofRatio negative num den : Binary64).isFinite = true := by
  rw [ofRatio]
  split
  · rw [isFinite, magnitude_ofMagnitude (Nat.two_pow_pos _)]
    rfl
  · rename_i hn
    have log : binaryExponent num den < 1023 := by
      rw [binaryExponent_eq_log hn hd]
      refine (Int.lt_zpow_iff_log_lt (b := 2) (by decide) (quotient_pos hn hd)).mp ?_
      exact_mod_cast h
    have finest : Format.double.finest = -1074 := rfl
    have bits : Format.double.fractionBits = 52 := rfl
    have infinity : Format.double.infinity = 2047 * 2 ^ 52 := rfl
    generalize hg : max Format.double.finest
      (binaryExponent num den - Format.double.fractionBits) = grid
    have significand := roundQuotient_le (@scaled_lt num den hn hd grid (by omega))
    have below : (grid - Format.double.finest).toNat * 2 ^ 52 +
        roundQuotient (scaled num den (-grid)).1 (scaled num den (-grid)).2 <
          Format.double.infinity := by omega
    dsimp only
    rw [isFinite, magnitude_ofMagnitude]
    · exact decide_eq_true ((Nat.min_le_left _ _).trans_lt below)
    · exact Nat.lt_of_le_of_lt (Nat.min_le_right _ _) (infinity_lt _)

/-- Near the powers of ten that are numbers of the format, the product or the quotient is all that
is rounded. -/
theorem scale?_eq {x : Binary64} (positive : x.negative = false) (few : x.value < 2 ^ 53) {e : Int}
    (near : e.natAbs ≤ 22) {num den : Nat} (hd : den ≠ 0)
    (h : (num : ℚ) / den = x.value * 10 ^ e) :
    x.scale? e = some (ofRatio false num den) := by
  rw [scale?]
  split
  · rename_i below
    obtain ⟨power, positive'⟩ := value_powerOfTen (n := (-e).toNat) (by omega)
    have steps : ((-e).toNat - 1) / tableEnd = 0 := Nat.div_eq_of_lt (by rw [tableEnd]; omega)
    have exponent : e = -((-e).toNat : Int) := by omega
    simp only [steps, Nat.mul_zero, Nat.sub_zero, lower]
    rw [quotient_eq positive positive' (by rw [power]; positivity) hd]
    rw [h, power, div_eq_mul_inv, ← zpow_natCast, ← zpow_neg, ← exponent]
  · rename_i atLeast
    obtain ⟨power, positive'⟩ := value_powerOfTen (n := e.toNat) (by omega)
    have exponent : e = (e.toNat : Int) := by omega
    rw [exponent, zpow_natCast, ← power] at h
    have small : (num : ℚ) / den < 2 ^ 1023 := by
      rw [h, power]
      calc x.value * 10 ^ e.toNat ≤ 2 ^ 53 * 10 ^ 22 :=
            mul_le_mul few.le (pow_le_pow_right₀ (by norm_num) (by omega)) (by positivity)
              (by positivity)
        _ < 2 ^ 128 := by norm_num
        _ ≤ 2 ^ 1023 := pow_le_pow_right₀ (by norm_num) (by decide)
    rw [if_pos (by rw [tableEnd]; omega), product_eq positive positive' hd h]
    exact if_pos (isFinite_ofRatio hd small)

end Binary

namespace Numeral

open Binary

variable {d : Numeral} {negative : Bool}

/-- A decimal of a moderate size is not decided by its number of digits. -/
theorem ofDecimal_eq_ofRatio (few : d.digits < 2 ^ 53) (near : d.exponent.natAbs ≤ 22) :
    (ofDecimal negative d.digits d.exponent : Binary64) =
      ofRatio negative (d.digits * Nat.pow 10 d.exponent.toNat)
        (Nat.pow 10 (-d.exponent).toNat) := by
  rw [ofDecimal]
  split
  · rename_i zero
    rw [zero, Nat.zero_mul, ofRatio, if_pos rfl]
  · rename_i nonzero
    have bias : Format.double.bias = 1023 := rfl
    have bits : Format.double.fractionBits = 52 := rfl
    have count : digitCount d.digits ≤ 16 := by
      refine not_lt.mp fun more ↦ ?_
      have least := (digitCount_of_ne_zero nonzero).1
      have great : 10 ^ 16 ≤ 10 ^ (digitCount d.digits - 1) :=
        Nat.pow_le_pow_right (by decide) (by omega)
      omega
    rw [if_neg (by omega), if_neg (by omega)]

/-- **Within these bounds a decimal is read as the word nearest to it.** -/
theorem read?_eq_ofDecimal (few : d.digits < 2 ^ 53) (near : d.exponent.natAbs ≤ 22) :
    d.read? negative = some (ofDecimal negative d.digits d.exponent) := by
  obtain ⟨same, positive⟩ := value_ofInt few
  have quotient := d.quotient_eq_value
  rw [value, ← same] at quotient
  have small : (ofInt d.digits : Binary64).value < 2 ^ 53 := by
    rw [same]
    exact_mod_cast few
  rw [read?, scale?_eq positive small near (ten_pow_ne_zero _) quotient, Option.map_some,
    signed_ofRatio, ofDecimal_eq_ofRatio few near]

end Numeral

end IdlLinker.Decimal
