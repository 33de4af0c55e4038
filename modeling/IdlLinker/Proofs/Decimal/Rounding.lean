import IdlLinker.Decimal.Shortest
import Mathlib.Algebra.Order.Field.Power
import Mathlib.Data.Int.Log
import Mathlib.Data.Rat.Floor
import Mathlib.Tactic.NormNum

/-!
# Rounding a decimal

The word nearest to a decimal is found with integers: a power of ten is a numerator or a
denominator, the exponent of the result is guessed from the lengths of both, and what is far out of
range is decided by the number of digits alone. None of this is seen in the result, which depends on
the number that the decimal stands for and on nothing else (`ofDecimal_congr`). The reason is that
each step asks for a logarithm of that number: `binaryExponent` for the one to the base two, and the
count of the digits for the one to the base ten.

A finite word is the one nearest to the number that it stands for (`ofRatio_of_value`). So a decimal
of exactly this number reads back, and so does what is printed, which is either found by trying or
is that decimal (`readsBack_shortest`).
-/

namespace IdlLinker.Decimal

/-! ## Values -/

/-- The number that a decimal stands for. -/
def Numeral.value (d : Numeral) : ℚ := d.digits * 10 ^ d.exponent

/-- The absolute value of a finite number. -/
def Binary.value {f : Format} (x : Binary f) : ℚ := x.significand * 2 ^ x.grid

theorem zpow_eq_div (b : ℚ) (e : ℤ) : b ^ e = b ^ e.toNat / b ^ (-e).toNat := by
  cases e with
  | ofNat n => simp
  | negSucc n => simp

theorem Numeral.digits_eq_zero_iff {d : Numeral} : d.digits = 0 ↔ d.value = 0 := by
  simp [value, zpow_ne_zero]

theorem ten_pow_ne_zero (n : Nat) : Nat.pow 10 n ≠ 0 := (Nat.pow_pos (by decide)).ne'

theorem Numeral.quotient_eq_value (d : Numeral) :
    ((d.digits * Nat.pow 10 d.exponent.toNat : Nat) : ℚ) / (Nat.pow 10 (-d.exponent).toNat : Nat) =
      d.value := by
  rw [value, zpow_eq_div, mul_div_assoc']
  simp

theorem scaled_div (num den : Nat) (power : Int) :
    ((scaled num den power).1 : ℚ) / (scaled num den power).2 = num / den * 2 ^ power := by
  rw [scaled, zpow_eq_div, div_mul_div_comm]
  simp

theorem scaled_pos {num den : Nat} (hn : num ≠ 0) (hd : den ≠ 0) (power : Int) :
    0 < (scaled num den power).1 ∧ 0 < (scaled num den power).2 :=
  ⟨Nat.mul_pos (Nat.pos_of_ne_zero hn) (Nat.two_pow_pos _),
    Nat.mul_pos (Nat.pos_of_ne_zero hd) (Nat.two_pow_pos _)⟩

/-! ## Logarithms -/

theorem log_eq {b : Nat} (hb : 1 < b) {q : ℚ} {e : Int} (least : (b : ℚ) ^ e ≤ q)
    (greatest : q < (b : ℚ) ^ (e + 1)) : Int.log b q = e := by
  have pos : 0 < q := lt_of_lt_of_le (zpow_pos (by exact_mod_cast Nat.zero_lt_of_lt hb) e) least
  have lower := (Int.zpow_le_iff_le_log hb pos).mp least
  have upper := (Int.lt_zpow_iff_log_lt hb pos).mp greatest
  omega

theorem log2_bounds {n : Nat} (h : n ≠ 0) :
    (2 : ℚ) ^ (n.log2 : Int) ≤ n ∧ (n : ℚ) < 2 ^ ((n.log2 : Int) + 1) := by
  refine ⟨?_, ?_⟩
  · exact_mod_cast Nat.log2_self_le h
  · exact_mod_cast Nat.lt_log2_self (n := n)

/-- A quotient lies between the powers before and after the one that the logarithms suggest. -/
theorem log2_quotient {num den : Nat} (hn : num ≠ 0) (hd : den ≠ 0) {guess : Int}
    (hg : (num.log2 : Int) - den.log2 = guess) :
    (2 : ℚ) ^ (guess - 1) ≤ num / den ∧ (num : ℚ) / den < 2 ^ (guess + 1) := by
  have two : (2 : ℚ) ≠ 0 := by norm_num
  have dpos : (0 : ℚ) < den := by exact_mod_cast Nat.pos_of_ne_zero hd
  obtain ⟨leastNum, greatestNum⟩ := log2_bounds hn
  obtain ⟨leastDen, greatestDen⟩ := log2_bounds hd
  refine ⟨?_, ?_⟩
  · rw [le_div_iff₀ dpos]
    calc (2 : ℚ) ^ (guess - 1) * den ≤ 2 ^ (guess - 1) * 2 ^ ((den.log2 : Int) + 1) := by gcongr
      _ = 2 ^ (num.log2 : Int) := by
        rw [← zpow_add₀ two]
        congr 1
        omega
      _ ≤ num := leastNum
  · rw [div_lt_iff₀ dpos]
    calc (num : ℚ) < 2 ^ ((num.log2 : Int) + 1) := greatestNum
      _ = 2 ^ (guess + 1) * 2 ^ (den.log2 : Int) := by
        rw [← zpow_add₀ two]
        congr 1
        omega
      _ ≤ 2 ^ (guess + 1) * den := by gcongr

theorem binaryExponent_eq_log {num den : Nat} (hn : num ≠ 0) (hd : den ≠ 0) :
    binaryExponent num den = Int.log 2 ((num : ℚ) / den) := by
  generalize hg : (num.log2 : Int) - den.log2 = guess
  obtain ⟨least, greatest⟩ := log2_quotient hn hd hg
  have scaledPos := (scaled_pos hn hd (-guess)).2
  have less : (scaled num den (-guess)).1 < (scaled num den (-guess)).2 ↔
      (num : ℚ) / den < 2 ^ guess := by
    rw [← Nat.cast_lt (α := ℚ), ← div_lt_one (by exact_mod_cast scaledPos), scaled_div, zpow_neg,
      ← div_eq_mul_inv, div_lt_one (by positivity)]
  rw [binaryExponent]
  dsimp only
  rw [hg]
  symm
  split
  · rename_i h
    exact log_eq (by decide) least (by simpa using less.mp h)
  · rename_i h
    exact log_eq (by decide) (not_lt.mp (mt less.mpr h)) greatest

theorem digitCount_of_ne_zero {n : Nat} (h : n ≠ 0) :
    10 ^ (Binary.digitCount n - 1) ≤ n ∧ n < 10 ^ Binary.digitCount n ∧
      0 < Binary.digitCount n := by
  rw [Binary.digitCount, if_neg h]
  have pos : 0 < (Nat.toDigits 10 n).length := Nat.length_toDigits_pos
  refine ⟨?_, (Nat.length_toDigits_le_iff (by decide) pos).mp le_rfl, pos⟩
  rcases Nat.eq_or_lt_of_le (Nat.succ_le_of_lt pos) with one | more
  · rw [← one]
    exact Nat.pos_of_ne_zero h
  · refine not_lt.mp fun lt ↦ ?_
    have fewer := (Nat.length_toDigits_le_iff (by decide) (by omega)).mpr lt
    omega

theorem Numeral.log_value {d : Numeral} (h : d.digits ≠ 0) :
    d.exponent + Binary.digitCount d.digits = Int.log 10 d.value + 1 := by
  have ten : (10 : ℚ) ≠ 0 := by norm_num
  obtain ⟨least, greatest, pos⟩ := digitCount_of_ne_zero h
  have power : (0 : ℚ) < 10 ^ d.exponent := by positivity
  have log : Int.log 10 d.value = d.exponent + (Binary.digitCount d.digits - 1 : Nat) := by
    refine log_eq (by decide) ?_ ?_
    · rw [Numeral.value, Nat.cast_ofNat, zpow_add₀ ten, mul_comm]
      exact mul_le_mul_of_nonneg_right (by exact_mod_cast least) power.le
    · rw [Numeral.value, Nat.cast_ofNat, add_assoc, zpow_add₀ ten, mul_comm]
      refine mul_lt_mul_of_pos_left ?_ power
      rw [show ((Binary.digitCount d.digits - 1 : Nat) : Int) + 1 = Binary.digitCount d.digits by
        omega]
      exact_mod_cast greatest
  omega

/-! ## The nearest word depends on the number -/

theorem roundQuotient_mul {k : Nat} (hk : 0 < k) (num den : Nat) :
    roundQuotient (k * num) (k * den) = roundQuotient num den := by
  have twice (m : Nat) : 2 * (k * m) = k * (2 * m) := Nat.mul_left_comm 2 k m
  simp only [roundQuotient, Nat.mul_div_mul_left _ _ hk, Nat.mul_mod_mul_left, twice,
    Nat.mul_lt_mul_left hk]

theorem roundQuotient_exact {den : Nat} (hd : 0 < den) (n : Nat) :
    roundQuotient (n * den) den = n := by
  simp [roundQuotient, Nat.mul_div_cancel n hd, hd]

namespace Binary

variable {f : Format} {negative : Bool}

theorem ofRatio_mul {k num den : Nat} (hk : 0 < k) (hd : den ≠ 0) :
    (ofRatio negative (k * num) (k * den) : Binary f) = ofRatio negative num den := by
  by_cases hn : num = 0
  · rw [hn, Nat.mul_zero, ofRatio, ofRatio, if_pos rfl, if_pos rfl]
  · have kn : k * num ≠ 0 := Nat.mul_ne_zero hk.ne' hn
    have same : binaryExponent (k * num) (k * den) = binaryExponent num den := by
      rw [binaryExponent_eq_log kn (Nat.mul_ne_zero hk.ne' hd), binaryExponent_eq_log hn hd]
      push_cast
      rw [mul_div_mul_left _ _ (by exact_mod_cast hk.ne')]
    have scale (power : Int) : scaled (k * num) (k * den) power =
        (k * (scaled num den power).1, k * (scaled num den power).2) := by
      simp only [scaled, Nat.mul_assoc]
    rw [ofRatio, ofRatio, if_neg kn, if_neg hn, same]
    simp only [scale, roundQuotient_mul hk]

/-- Two quotients of one number have the same nearest word. -/
theorem ofRatio_congr {num den num' den' : Nat} (hd : den ≠ 0) (hd' : den' ≠ 0)
    (h : (num : ℚ) / den = num' / den') :
    (ofRatio negative num den : Binary f) = ofRatio negative num' den' := by
  have cross : den' * num = den * num' := by
    rw [div_eq_div_iff (by exact_mod_cast hd) (by exact_mod_cast hd')] at h
    have eq : num * den' = num' * den := by exact_mod_cast h
    rw [Nat.mul_comm den', eq, Nat.mul_comm]
  rw [← ofRatio_mul (Nat.pos_of_ne_zero hd') hd, cross, Nat.mul_comm den' den,
    ofRatio_mul (Nat.pos_of_ne_zero hd) hd']

/-- **The word nearest to a decimal depends on the number that the decimal stands for.** -/
theorem ofDecimal_congr {d d' : Numeral} (h : d.value = d'.value) :
    (ofDecimal negative d.digits d.exponent : Binary f) =
      ofDecimal negative d'.digits d'.exponent := by
  have zero : d.digits = 0 ↔ d'.digits = 0 := by
    rw [Numeral.digits_eq_zero_iff, h, Numeral.digits_eq_zero_iff]
  by_cases hd : d.digits = 0
  · rw [ofDecimal, ofDecimal, if_pos hd, if_pos (zero.mp hd)]
  · have hd' : d'.digits ≠ 0 := mt zero.mpr hd
    have top : d.exponent + digitCount d.digits = d'.exponent + digitCount d'.digits := by
      rw [Numeral.log_value hd, Numeral.log_value hd', h]
    have quotients := d.quotient_eq_value.trans (h.trans d'.quotient_eq_value.symm)
    have ratio : (ofRatio negative _ _ : Binary f) = ofRatio negative _ _ :=
      ofRatio_congr (ten_pow_ne_zero _) (ten_pow_ne_zero _) quotients
    rw [ofDecimal, ofDecimal]
    simp only [if_neg hd, if_neg hd', top, ratio]

/-! ## Words by their magnitude -/

theorem width_eq (f : Format) : f.width - 1 = f.exponentBits + f.fractionBits := by
  simp only [Format.width]
  omega

theorem infinity_lt (f : Format) : f.infinity < 2 ^ (f.width - 1) := by
  rw [width_eq, pow_add]
  exact Nat.mul_lt_mul_of_pos_right (Nat.sub_lt (Nat.two_pow_pos _) Nat.one_pos)
    (Nat.two_pow_pos _)

theorem toNat_ofMagnitude {m : Nat} (h : m < 2 ^ (f.width - 1)) :
    (ofMagnitude negative m : Binary f).bits.toNat =
      (if negative then 2 ^ (f.width - 1) else 0) + m := by
  have width : 2 ^ f.width = 2 * 2 ^ (f.width - 1) := by
    rw [← Nat.pow_succ', width_eq]
    simp only [Format.width]
    congr 1
    omega
  rw [ofMagnitude, BitVec.toNat_ofNat]
  refine Nat.mod_eq_of_lt ?_
  change (if negative then 2 ^ (f.width - 1) else 0) + m < 2 ^ f.width
  split <;> omega

theorem magnitude_ofMagnitude {m : Nat} (h : m < 2 ^ (f.width - 1)) :
    (ofMagnitude negative m : Binary f).magnitude = m := by
  rw [magnitude, toNat_ofMagnitude h]
  change _ % 2 ^ (f.width - 1) = m
  cases negative with
  | false => rw [if_neg Bool.false_ne_true, Nat.zero_add, Nat.mod_eq_of_lt h]
  | true => rw [if_pos rfl, Nat.add_mod_left, Nat.mod_eq_of_lt h]

theorem negative_ofMagnitude {m : Nat} (h : m < 2 ^ (f.width - 1)) :
    (ofMagnitude negative m : Binary f).negative = negative := by
  rw [Binary.negative, BitVec.msb_eq_decide, toNat_ofMagnitude h]
  cases negative with
  | false => simpa using h
  | true => simp

/-! ## Finite words -/

variable {x : Binary f}

theorem ofMagnitude_magnitude (x : Binary f) : ofMagnitude x.negative x.magnitude = x := by
  have width : f.width = f.width - 1 + 1 := by
    simp only [Format.width]
    omega
  have bound := x.bits.isLt
  have half : Nat.pow 2 f.width = 2 * Nat.pow 2 (f.width - 1) := by
    conv_lhs => rw [width]
    exact Nat.pow_succ'
  obtain ⟨bits⟩ := x
  change bits.toNat < Nat.pow 2 f.width at bound
  have restored : (if bits.msb = true then Nat.pow 2 (f.width - 1) else 0) +
      bits.toNat % Nat.pow 2 (f.width - 1) = bits.toNat := by
    split
    · rename_i set
      have great : Nat.pow 2 (f.width - 1) ≤ bits.toNat := BitVec.le_toNat_of_msb_true set
      rw [Nat.mod_eq_sub_mod great, Nat.mod_eq_of_lt (by omega)]
      omega
    · rename_i clear
      have small : bits.toNat < Nat.pow 2 (f.width - 1) :=
        BitVec.toNat_lt_of_msb_false (Bool.eq_false_iff.mpr clear)
      rw [Nat.zero_add, Nat.mod_eq_of_lt small]
  rw [ofMagnitude, negative, magnitude, restored, BitVec.ofNat_toNat, BitVec.setWidth_eq]

theorem ratio_div (x : Binary f) : (x.ratio.1 : ℚ) / x.ratio.2 = x.value := by
  rw [ratio, scaled_div, value, Nat.cast_one, div_one]

theorem ratio_ne_zero (x : Binary f) : x.ratio.2 ≠ 0 :=
  Nat.mul_ne_zero Nat.one_ne_zero (Nat.two_pow_pos _).ne'

theorem magnitude_eq (x : Binary f) :
    x.magnitude = (x.exponentField - 1) * Nat.pow 2 f.fractionBits + x.significand := by
  have fields : Nat.pow 2 f.fractionBits * x.exponentField + x.fractionField = x.magnitude :=
    Nat.div_add_mod _ _
  rw [significand]
  split
  · rename_i subnormal
    rw [← fields, subnormal, Nat.mul_zero, Nat.zero_sub, Nat.zero_mul]
  · rename_i normal
    obtain ⟨n, hn⟩ := Nat.exists_eq_add_one_of_ne_zero normal
    rw [← fields, hn, Nat.add_sub_cancel]
    ring

theorem significand_ne_zero (nonzero : x.isZero = false) : x.significand ≠ 0 := by
  intro zero
  have magnitude : x.magnitude ≠ 0 := by simpa [isZero] using nonzero
  refine magnitude ?_
  rw [significand] at zero
  split at zero
  · rename_i subnormal
    rw [magnitude_eq, subnormal, significand, if_pos subnormal, zero]
    simp
  · have := Nat.two_pow_pos f.fractionBits
    change 2 ^ f.fractionBits + _ = 0 at zero
    omega

/-- Between which powers of two a number lies that has the hidden bit. -/
theorem value_normal (normal : x.exponentField ≠ 0) :
    (2 : ℚ) ^ (f.fractionBits + x.grid) ≤ x.value ∧
      x.value < 2 ^ (f.fractionBits + x.grid + 1) := by
  have two : (2 : ℚ) ≠ 0 := by norm_num
  have power : (0 : ℚ) < 2 ^ x.grid := by positivity
  have fraction : x.fractionField < 2 ^ f.fractionBits := Nat.mod_lt _ (Nat.two_pow_pos _)
  have hidden : x.significand = 2 ^ f.fractionBits + x.fractionField := by
    rw [significand, if_neg normal]
    rfl
  refine ⟨?_, ?_⟩
  · rw [value, zpow_add₀ two]
    refine mul_le_mul_of_nonneg_right ?_ power.le
    exact_mod_cast hidden ▸ Nat.le_add_right _ _
  · rw [value, add_right_comm, zpow_add₀ two]
    refine mul_lt_mul_of_pos_right ?_ power
    have less : x.significand < 2 ^ (f.fractionBits + 1) := by
      rw [hidden, Nat.pow_succ]
      omega
    exact_mod_cast less

/-- A number without the hidden bit stands on the finest grid. -/
theorem value_subnormal (subnormal : x.exponentField = 0) :
    x.grid = f.finest ∧ x.value < 2 ^ (f.fractionBits + f.finest) := by
  have two : (2 : ℚ) ≠ 0 := by norm_num
  have grid : x.grid = f.finest := by simp [Binary.grid, subnormal]
  refine ⟨grid, ?_⟩
  rw [value, grid, zpow_add₀ two]
  refine mul_lt_mul_of_pos_right ?_ (by positivity)
  have less : x.significand < 2 ^ f.fractionBits := by
    rw [significand, if_pos subnormal]
    exact Nat.mod_lt _ (Nat.two_pow_pos _)
  exact_mod_cast less

theorem finest_le_grid (x : Binary f) : f.finest ≤ x.grid := by
  rw [grid]
  omega

theorem value_ge (nonzero : x.isZero = false) : (2 : ℚ) ^ f.finest ≤ x.value := by
  have one : (1 : ℚ) ≤ x.significand := by
    exact_mod_cast Nat.pos_of_ne_zero (significand_ne_zero nonzero)
  calc (2 : ℚ) ^ f.finest ≤ 2 ^ x.grid := zpow_le_zpow_right₀ (by norm_num) x.finest_le_grid
    _ = 1 * 2 ^ x.grid := (one_mul _).symm
    _ ≤ x.value := mul_le_mul_of_nonneg_right one (by positivity)

theorem value_lt (finite : x.isFinite = true) : x.value < (2 : ℚ) ^ ((f.bias : Int) + 1) := by
  have below : x.magnitude < (Nat.pow 2 f.exponentBits - 1) * Nat.pow 2 f.fractionBits :=
    of_decide_eq_true finite
  have field : x.exponentField < Nat.pow 2 f.exponentBits - 1 :=
    (Nat.div_lt_iff_lt_mul (Nat.two_pow_pos _)).mpr below
  obtain ⟨n, hn⟩ : ∃ n, f.exponentBits = n + 1 := by
    refine Nat.exists_eq_add_one_of_ne_zero fun zero ↦ ?_
    rw [zero] at field
    exact Nat.not_lt_zero _ field
  have powers : Nat.pow 2 f.exponentBits = 2 * (f.bias + 1) := by
    have pos : 0 < Nat.pow 2 n := Nat.two_pow_pos n
    rw [Format.bias, hn, Nat.add_sub_cancel, Nat.sub_add_cancel pos]
    exact Nat.pow_succ'
  by_cases subnormal : x.exponentField = 0
  · obtain ⟨-, less⟩ := value_subnormal subnormal
    refine less.trans_le (zpow_le_zpow_right₀ (by norm_num) ?_)
    simp only [Format.finest]
    omega
  · obtain ⟨-, less⟩ := value_normal subnormal
    refine less.trans_le (zpow_le_zpow_right₀ (by norm_num) ?_)
    simp only [grid, Format.finest]
    omega

theorem max_log_eq_grid (nonzero : x.isZero = false) :
    max f.finest (Int.log 2 x.value - f.fractionBits) = x.grid := by
  have positive : 0 < x.value := lt_of_lt_of_le (by positivity) (value_ge nonzero)
  by_cases subnormal : x.exponentField = 0
  · obtain ⟨grid, less⟩ := value_subnormal subnormal
    have log := (Int.lt_zpow_iff_log_lt (b := 2) (by decide) positive).mp less
    omega
  · obtain ⟨least, greatest⟩ := value_normal subnormal
    have log := log_eq (b := 2) (by decide) least greatest
    have finest := x.finest_le_grid
    omega

/-- On its own grid a number needs no rounding. -/
theorem roundQuotient_scaled {num den : Nat} (hn : num ≠ 0) (hd : den ≠ 0)
    (h : (num : ℚ) / den = x.value) :
    roundQuotient (scaled num den (-x.grid)).1 (scaled num den (-x.grid)).2 = x.significand := by
  obtain ⟨-, pos⟩ := scaled_pos hn hd (-x.grid)
  have exacts : ((scaled num den (-x.grid)).1 : ℚ) / (scaled num den (-x.grid)).2 =
      x.significand := by
    rw [scaled_div, h, value, mul_assoc, ← zpow_add₀ (by norm_num), add_neg_cancel, zpow_zero,
      mul_one]
  rw [div_eq_iff (by exact_mod_cast pos.ne')] at exacts
  have multiple :
      (scaled num den (-x.grid)).1 = x.significand * (scaled num den (-x.grid)).2 := by
    exact_mod_cast exacts
  rw [multiple, roundQuotient_exact pos]

/-- **A finite word is the one nearest to the number that it stands for.** -/
theorem ofRatio_of_value (finite : x.isFinite = true) (nonzero : x.isZero = false) {num den : Nat}
    (hd : den ≠ 0) (h : (num : ℚ) / den = x.value) : ofRatio x.negative num den = x := by
  have positive : 0 < x.value := lt_of_lt_of_le (by positivity) (value_ge nonzero)
  have hn : num ≠ 0 := by
    rintro rfl
    rw [Nat.cast_zero, zero_div] at h
    exact positive.ne h
  have grid : max f.finest (binaryExponent num den - f.fractionBits) = x.grid := by
    rw [binaryExponent_eq_log hn hd, h, max_log_eq_grid nonzero]
  have steps : (x.grid - f.finest).toNat = x.exponentField - 1 := by
    rw [Binary.grid]
    omega
  have below : x.magnitude ≤ f.infinity := by
    simp only [isFinite, decide_eq_true_eq] at finite
    exact finite.le
  rw [ofRatio, if_neg hn]
  simp only [grid, roundQuotient_scaled hn hd h, steps]
  rw [← magnitude_eq, Nat.min_eq_left below, ofMagnitude_magnitude]

theorem isNaN_of_isFinite (finite : x.isFinite = true) : x.isNaN = false := by
  simp only [isFinite, decide_eq_true_eq] at finite
  simp only [isNaN, decide_eq_false_iff_not]
  omega

theorem convert_self (finite : x.isFinite = true) : x.convert f = x := by
  rw [convert, if_neg (by simp [isNaN_of_isFinite finite]), if_pos finite]
  by_cases zero : x.isZero = true
  · have magnitude : x.magnitude = 0 := by simpa [isZero] using zero
    have significand : x.significand = 0 := by
      have parts := x.magnitude_eq
      omega
    rw [ratio, scaled, significand, Nat.zero_mul, ofRatio, if_pos rfl, ← magnitude,
      ofMagnitude_magnitude]
  · exact ofRatio_of_value finite (Bool.eq_false_iff.mpr zero) x.ratio_ne_zero x.ratio_div

/-! ## What is printed -/

theorem value_exactDecimal (x : Binary f) : x.exactDecimal.value = x.value := by
  rw [Numeral.value, exactDecimal, value]
  obtain ⟨n, hn | hn⟩ := Int.eq_nat_or_neg x.grid
  · simp [hn]
  · have ten : (10 : ℚ) = 5 * 2 := by norm_num
    rw [hn, min_eq_right (by omega), zpow_neg, zpow_neg, ten, mul_zpow]
    simp
    field_simp

/-- A decimal of the number itself reads back. -/
theorem readsBack_of_value (finite : x.isFinite = true) (nonzero : x.isZero = false) {d : Numeral}
    (h : d.value = x.value) : x.readsBack d = true := by
  have positive : 0 < x.value := lt_of_lt_of_le (by positivity) (value_ge nonzero)
  have digits : d.digits ≠ 0 := by
    rw [ne_eq, Numeral.digits_eq_zero_iff, h]
    exact positive.ne'
  have top := Numeral.log_value digits
  rw [h] at top
  -- The count of the digits does not take the number to be out of range.
  have upper : Int.log 10 x.value < f.bias + 1 := by
    refine (Int.lt_zpow_iff_log_lt (by decide) positive).mp ((value_lt finite).trans_le ?_)
    exact zpow_le_zpow_left₀ (by omega) (by norm_num) (by norm_num)
  have lower : -((f.bias : Int) + f.fractionBits + 2) ≤ Int.log 10 x.value := by
    refine (Int.zpow_le_iff_le_log (by decide) positive).mp (le_trans ?_ (value_ge nonzero))
    calc ((10 : Nat) : ℚ) ^ (-((f.bias : Int) + f.fractionBits + 2))
        ≤ 2 ^ (-((f.bias : Int) + f.fractionBits + 2)) := by
          rw [zpow_neg, zpow_neg]
          refine inv_anti₀ (by positivity) (zpow_le_zpow_left₀ (by omega) (by norm_num) ?_)
          norm_num
      _ ≤ 2 ^ f.finest := by
          refine zpow_le_zpow_right₀ (by norm_num) ?_
          rw [Format.finest]
          omega
  have nearest := ofRatio_of_value finite nonzero (ten_pow_ne_zero _) (d.quotient_eq_value.trans h)
  rw [readsBack, beq_iff_eq, ofDecimal, if_neg digits, if_neg (by omega), if_neg (by omega),
    nearest]

theorem readsBack_congr {d d' : Numeral} (h : d.value = d'.value) :
    x.readsBack d = x.readsBack d' := by
  rw [readsBack, readsBack, ofDecimal_congr h]

end Binary

theorem Numeral.value_trim (fuel : Nat) (d : Numeral) : (d.trim fuel).value = d.value := by
  induction fuel generalizing d with
  | zero => rfl
  | succ fuel ih =>
    rw [Numeral.trim]
    split
    · rename_i zeros
      have tenfold : d.digits = d.digits / 10 * 10 := by omega
      rw [ih, value, value, zpow_add₀ (by norm_num), zpow_one]
      conv_rhs => rw [tenfold]
      push_cast
      ring
    · rfl

namespace Binary

variable {f : Format} {x : Binary f}

theorem readsBack_of_onGrid? {tie : Tie} {exponent : Int} {d : Numeral}
    (h : x.onGrid? tie exponent = some d) : x.readsBack d = true := by
  have either : ∀ p : Numeral × Numeral,
      (if x.readsBack p.1 then some p.1 else if x.readsBack p.2 then some p.2 else none) = some d →
        x.readsBack d = true := by
    intro p h
    split at h
    · rename_i first
      exact Option.some.inj h ▸ first
    · split at h
      · rename_i second
        exact Option.some.inj h ▸ second
      · cases h
  exact either _ h

/-- **What is printed for a finite number reads back**, if it is rounded once. -/
theorem readsBack_shortest (tie : Tie) (finite : x.isFinite = true) (nonzero : x.isZero = false) :
    x.readsBack (x.shortest tie) = true := by
  rw [shortest, readsBack_congr (Numeral.value_trim _ _)]
  cases found : x.grids.findSome? (x.onGrid? tie) with
  | none => exact readsBack_of_value finite nonzero (value_exactDecimal x)
  | some d =>
    obtain ⟨e, -, grid⟩ := List.exists_of_findSome?_eq_some found
    exact readsBack_of_onGrid? grid

theorem readsBack_zero (zero : x.isZero = true) (exponent : Int) :
    x.readsBack ⟨0, exponent⟩ = true := by
  have magnitude : x.magnitude = 0 := by simpa [isZero] using zero
  rw [readsBack, beq_iff_eq, ofDecimal, if_pos rfl, ← magnitude, ofMagnitude_magnitude]

theorem digits_ne_zero_of_readsBack {d : Numeral} (nonzero : x.isZero = false)
    (h : x.readsBack d = true) : d.digits ≠ 0 := by
  intro zero
  have same : (ofDecimal x.negative d.digits d.exponent : Binary f) = x := by
    simpa [readsBack] using h
  rw [zero, ofDecimal, if_pos rfl] at same
  have magnitude : x.magnitude = 0 := by
    rw [← same, magnitude_ofMagnitude (Nat.two_pow_pos _)]
  simp [isZero, magnitude] at nonzero

end Binary

end IdlLinker.Decimal
