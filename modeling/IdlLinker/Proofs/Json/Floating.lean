import IdlLinker.Graph.Load
import IdlLinker.Proofs.Decimal.Scaling
import IdlLinker.Proofs.Json.Number

/-!
# Floating point numbers in a document

A finite number is written in decimal form, as a number of the grammar whatever its digits, and that
number is one which reads back (`denotes_text`). So it is taken off a document as a whole, and two
numbers of one width are never written alike (`text_inj`).

What can go wrong is the value, for the reader of documents does not look for the nearest number. It
scales the digits in machine arithmetic, and a number of thirty-two bits is read in sixty-four bits
first, so a number may be read as one of its neighbours. `Floating.Rereads` says of a number that it
is read back from its own text, and from this it follows that it is read back wherever the text
stands.

A number of sixty-four bits is always read back if its text has few digits and a small exponent,
because scaling is then exact up to the last step (`Floating.rereads_double`). That covers whatever
is written with at most fifteen digits and without an exponent.
-/

namespace IdlLinker

open Decimal

namespace Json

open Reader

/-! ## The grammar of what is written -/

theorem bytes_point : bytes "." = [0x2e] := bytes_eq "."

theorem isDigit_of_mem_zeros {n : Nat} {c : Char} (h : c ∈ List.replicate n '0') : c.isDigit := by
  obtain rfl := List.eq_of_mem_replicate h
  rfl

theorem numberText_unsigned {whole f e : List UInt8} {fraction : Option (List UInt8)}
    {power : Option Int} (hw : Digits whole) (zero : whole.head? = some 0x30 → whole.length = 1)
    (hf : FractionText f fraction) (he : ExponentText e power) :
    NumberText false whole fraction power (whole ++ (f ++ e)) :=
  .mk hw zero hf he

theorem NumberText.negate {whole t : List UInt8} {fraction : Option (List UInt8)}
    {power : Option Int} (h : NumberText false whole fraction power t) :
    NumberText true whole fraction power (0x2d :: t) := by
  obtain ⟨hw, zero, hf, he⟩ := h
  exact .mk hw zero hf he

theorem head_ne_zero {digits : List Char} (all : ∀ c ∈ digits, c.isDigit)
    (head : digits.head? ≠ some '0') : (digits.map Char.toUInt8).head? ≠ some 0x30 := by
  rw [List.head?_map]
  intro zero
  obtain ⟨c, hc, eq⟩ := Option.map_eq_some_iff.mp zero
  have self := (utf8_digit (all c (List.mem_of_head? hc))).2
  rw [eq] at self
  exact head (hc.trans (congrArg some self.symm))

/-- The decimal that the parts of a number stand for. -/
def numeral (whole : List UInt8) (fraction : Option (List UInt8)) (power : Option Int) : Numeral :=
  ⟨digitsValue (whole ++ fraction.getD []), power.getD 0 - (fraction.getD []).length⟩

/-- A text is a number of the grammar, with this sign and this absolute value. -/
def Denotes (minus : Bool) (value : ℚ) (t : List UInt8) : Prop :=
  ∃ whole fraction power, NumberText minus whole fraction power t ∧
    (numeral whole fraction power).value = value

theorem Denotes.isNumber {minus : Bool} {value : ℚ} {t : List UInt8} (h : Denotes minus value t) :
    IsNumber t := by
  obtain ⟨whole, fraction, power, text, -⟩ := h
  exact ⟨minus, whole, fraction, power, text⟩

theorem Denotes.negate {value : ℚ} {t : List UInt8} (h : Denotes false value t) :
    Denotes true value (0x2d :: t) := by
  obtain ⟨whole, fraction, power, text, same⟩ := h
  exact ⟨whole, fraction, power, text.negate, same⟩

section Arrangements

variable {digits : List Char} {e : String} {power : Option Int} {n : Int}

/-- Digits on either side of a point, and perhaps an exponent, are a number. -/
theorem denotes_point (front back : List Char) (hf : front ≠ []) (hb : back ≠ [])
    (all : ∀ c ∈ front ++ back, c.isDigit) (zero : front.head? = some '0' → front.length = 1)
    (he : ExponentText (bytes e) power) :
    Denotes false
      (Numeral.value ⟨Nat.ofDigitChars 10 (front ++ back) 0, power.getD 0 - back.length⟩)
      (bytes (String.ofList front ++ "." ++ String.ofList back ++ e)) := by
  have allFront : ∀ c ∈ front, c.isDigit := fun c hc ↦ all c (List.mem_append_left _ hc)
  have allBack : ∀ c ∈ back, c.isDigit := fun c hc ↦ all c (List.mem_append_right _ hc)
  have first : (front.map Char.toUInt8).head? = some 0x30 →
      (front.map Char.toUInt8).length = 1 := by
    intro eq
    rw [List.length_map]
    exact zero (Classical.byContradiction fun head ↦ head_ne_zero allFront head eq)
  refine ⟨front.map Char.toUInt8, some (back.map Char.toUInt8), power, ?_, ?_⟩
  · rw [bytes_append, bytes_append, bytes_append, bytes_point, bytes_of_digits allFront,
      bytes_of_digits allBack, List.append_assoc, List.append_assoc]
    have text := numberText_unsigned (digits_map hf allFront) first
      (.digits (digits_map hb allBack)) he
    exact text
  · rw [numeral, Option.getD_some, ← List.map_append, digitsValue_map all, List.length_map]

theorem denotes_plain (front back : List Char) (hf : front ≠ []) (hb : back ≠ [])
    (all : ∀ c ∈ front ++ back, c.isDigit) (zero : front.head? = some '0' → front.length = 1) :
    Denotes false (Numeral.value ⟨Nat.ofDigitChars 10 (front ++ back) 0, -(back.length : Int)⟩)
      (bytes (String.ofList front ++ "." ++ String.ofList back)) := by
  have noExponent : ExponentText (bytes "") none := by
    rw [bytes_empty]
    exact .absent
  have text := denotes_point front back hf hb all zero noExponent
  rwa [String.append_empty, Option.getD_none, zero_sub] at text

/-- Zeros between the point and the digits move the point to the left. -/
theorem denotes_zeros_digits (all : ∀ c ∈ digits, c.isDigit) (nonempty : digits ≠ []) (k : Nat) :
    Denotes false (Numeral.value ⟨Nat.ofDigitChars 10 digits 0, -(k : Int) - digits.length⟩)
      (bytes ("0." ++ String.ofList (List.replicate k '0' ++ digits))) := by
  have padded : ∀ c ∈ ['0'] ++ (List.replicate k '0' ++ digits), c.isDigit := by
    intro c hc
    simp only [List.singleton_append, List.mem_cons, List.mem_append] at hc
    rcases hc with rfl | hc | hc
    · rfl
    · exact isDigit_of_mem_zeros hc
    · exact all c hc
  have text := denotes_plain _ _ (by simp) (by simp [nonempty]) padded (fun _ ↦ rfl)
  have zero : Nat.ofDigitChars 10 ['0'] 0 = 0 := rfl
  have same : Nat.ofDigitChars 10 (['0'] ++ (List.replicate k '0' ++ digits)) 0 =
      Nat.ofDigitChars 10 digits 0 := by
    rw [Nat.ofDigitChars_append, Nat.ofDigitChars_append, Nat.ofDigitChars_replicate_zero, zero,
      Nat.mul_zero]
  rw [same, List.length_append, List.length_replicate] at text
  rwa [show -((k + digits.length : Nat) : Int) = -(k : Int) - digits.length by omega] at text

/-- Zeros between the digits and the point move the point to the right. -/
theorem denotes_digits_zeros (all : ∀ c ∈ digits, c.isDigit) (head : digits.head? ≠ some '0')
    (nonempty : digits ≠ []) (k : Nat) :
    Denotes false (Numeral.value ⟨Nat.ofDigitChars 10 digits 0, k⟩)
      (bytes (String.ofList (digits ++ List.replicate k '0') ++ "." ++ "0")) := by
  have padded : ∀ c ∈ digits ++ List.replicate k '0' ++ ['0'], c.isDigit := by
    intro c hc
    simp only [List.mem_append, List.mem_singleton] at hc
    rcases hc with (hc | hc) | rfl
    · exact all c hc
    · exact isDigit_of_mem_zeros hc
    · rfl
  have first : (digits ++ List.replicate k '0').head? = digits.head? := by
    obtain ⟨c, cs, rfl⟩ := List.exists_cons_of_ne_nil nonempty
    rfl
  have text := denotes_plain _ _ (by simp [nonempty]) (by simp) padded
    (fun zero ↦ absurd (first ▸ zero) head)
  have same :
      Numeral.value ⟨Nat.ofDigitChars 10 (digits ++ List.replicate k '0' ++ ['0']) 0,
        -((['0'].length : Nat) : Int)⟩ = Numeral.value ⟨Nat.ofDigitChars 10 digits 0, k⟩ := by
    rw [Nat.ofDigitChars_append, Nat.ofDigitChars_append, Nat.ofDigitChars_replicate_zero,
      Nat.ofDigitChars_cons, Nat.ofDigitChars_nil, Numeral.value, Numeral.value, zpow_natCast]
    push_cast
    norm_num
    ring
  rwa [same] at text

/-- Digits with a point among them are a number: zeros stand in front of them only after the
point. -/
theorem denotes_pointed (all : ∀ c ∈ digits, c.isDigit) (head : digits.head? ≠ some '0')
    (nonempty : digits ≠ []) (whole : Int) :
    Denotes false (Numeral.value ⟨Nat.ofDigitChars 10 digits 0, whole - digits.length⟩)
      (bytes (Layout.pointed digits whole)) := by
  rw [Layout.pointed]
  split
  · have text := denotes_zeros_digits all nonempty (-whole).toNat
    rwa [show -((-whole).toNat : Int) = whole by omega] at text
  · obtain ⟨n, rfl⟩ := Int.eq_ofNat_of_zero_le (by omega : 0 ≤ whole)
    dsimp only
    rw [Int.toNat_natCast]
    rcases Nat.lt_or_ge n digits.length with among | before
    · -- The point stands among the digits.
      have behind : digits.drop n ≠ [] := by simpa using among
      have first : (digits.take n).head? = digits.head? := by
        rw [List.head?_take, if_neg (by omega)]
      have text := denotes_plain (digits.take n) _ (by simp [nonempty]; omega) behind
        (by rwa [List.take_append_drop]) (fun zero ↦ absurd (first ▸ zero) head)
      rw [List.take_append_drop, List.length_drop] at text
      rw [if_neg (by simpa using behind), show n - digits.length = 0 by omega, List.replicate_zero,
        List.append_nil]
      rwa [show -((digits.length - n : Nat) : Int) = n - digits.length by omega] at text
    · -- Zeros stand between the digits and the point.
      have text := denotes_digits_zeros all head nonempty (n - digits.length)
      rw [Nat.cast_sub before] at text
      rwa [List.drop_eq_nil_of_le before, List.take_of_length_le before]

/-- One digit, perhaps others after a point, and an exponent are a number. -/
theorem denotes_normalized (all : ∀ c ∈ digits, c.isDigit) (nonempty : digits ≠ [])
    (he : ExponentText (bytes e) (some n)) :
    Denotes false (Numeral.value ⟨Nat.ofDigitChars 10 digits 0, n + 1 - digits.length⟩)
      (bytes (Layout.normalized digits ++ e)) := by
  obtain ⟨c, cs, rfl⟩ := List.exists_cons_of_ne_nil nonempty
  cases cs with
  | nil =>
    have first := digits_map nonempty all
    rw [List.map_singleton] at first
    refine ⟨[c.toUInt8], none, some n, ?_, ?_⟩
    · rw [bytes_append, Layout.normalized, bytes_singleton,
        (utf8_digit (all c List.mem_cons_self)).1]
      exact numberText_unsigned first (fun _ ↦ rfl) .absent he
    · have value := digitsValue_map all
      rw [List.map_singleton] at value
      simp [numeral, value]
  | cons d ds =>
    have text := denotes_point [c] (d :: ds) (by simp) (by simp) all
      (fun _ ↦ rfl) he
    have split : Layout.normalized (c :: d :: ds) =
      String.ofList [c] ++ "." ++ String.ofList (d :: ds) := rfl
    rw [split]
    rwa [List.singleton_append, Option.getD_some,
      show n - ((d :: ds).length : Int) = n + 1 - (c :: d :: ds).length by simp] at text

end Arrangements

/-- What is written for an exponent, where an exponent that is not negative has a plus sign. -/
theorem exponentText_exponentText {l : Layout} (plus : l.plus = "+") (e : Int) :
    ExponentText (bytes (l.exponentText e)) (some e) := by
  have mark : bytes "e" = [0x65] := bytes_eq "e"
  have digits : bytes (toString e.natAbs) = decimal e.natAbs := bytes_repr e.natAbs
  rw [Layout.exponentText, bytes_append, bytes_append, mark, digits]
  split
  · have minus : bytes "-" = [0x2d] := bytes_eq "-"
    have text := ExponentText.minus (.inl rfl) (digits_decimal e.natAbs)
    rw [digitsValue_decimal, show -(e.natAbs : Int) = e by omega] at text
    rw [minus]
    exact text
  · have sign : bytes "+" = [0x2b] := bytes_eq "+"
    have text := ExponentText.plus (.inl rfl) (digits_decimal e.natAbs)
    rw [digitsValue_decimal, show (e.natAbs : Int) = e by omega] at text
    rw [plus, sign]
    exact text

/-- What is written for a decimal that is not zero denotes the decimal. -/
theorem denotes_decimalText {l : Layout} (plus : l.plus = "+") {d : Numeral} (h : d.digits ≠ 0) :
    Denotes false d.value (bytes (l.decimalText d)) := by
  have all : ∀ c ∈ Nat.toDigits 10 d.digits, c.isDigit := fun _ ↦ isDigit_of_mem_toDigits
  have count : Binary.digitCount d.digits = (Nat.toDigits 10 d.digits).length := by
    rw [Binary.digitCount, if_neg h]
  have exponent : d.leading + 1 - (Nat.toDigits 10 d.digits).length = d.exponent := by
    rw [Numeral.leading, count]
    omega
  rw [Layout.decimalText]
  split
  · have text := denotes_pointed all (head?_toDigits (Nat.pos_of_ne_zero h)) Nat.toDigits_ne_nil
      (d.leading + 1)
    rwa [exponent, Nat.ofDigitChars_ten_toDigits] at text
  · have text := denotes_normalized all Nat.toDigits_ne_nil
      (exponentText_exponentText plus d.leading)
    rwa [exponent, Nat.ofDigitChars_ten_toDigits] at text

/-- **What is written for a finite number denotes a decimal that reads back**, with the sign of the
number. -/
theorem denotes_text {f : Format} {l : Layout} (plus : l.plus = "+") {x : Binary f}
    (finite : x.isFinite = true) :
    ∃ d : Numeral, Denotes x.negative d.value (bytes (l.text x)) ∧ x.readsBack d = true := by
  obtain ⟨d, unsigned, reads⟩ : ∃ d : Numeral, Denotes false d.value
      (bytes (if !x.isFinite then "inf" else if x.isZero then "0.0"
        else l.decimalText (x.shortest l.tie))) ∧ x.readsBack d = true := by
    rw [if_neg (by simp [finite])]
    split
    · rename_i zero
      have noExponent : ExponentText (bytes "") none := by
        rw [bytes_empty]
        exact .absent
      exact ⟨_, denotes_point ['0'] ['0'] (by simp) (by simp) (by simp)
        (fun _ ↦ rfl) noExponent, Binary.readsBack_zero zero _⟩
    · rename_i nonzero
      replace nonzero := Bool.eq_false_iff.mpr nonzero
      have reads := Binary.readsBack_shortest l.tie finite nonzero
      exact ⟨_, denotes_decimalText plus (Binary.digits_ne_zero_of_readsBack nonzero reads), reads⟩
  refine ⟨d, ?_, reads⟩
  rw [Layout.text, if_neg (by simp [Binary.isNaN_of_isFinite finite]), bytes_append]
  split
  · rename_i negative
    have dash : bytes "-" = [0x2d] := bytes_eq "-"
    rw [dash, negative]
    exact unsigned.negate
  · rename_i positive
    rw [bytes_empty, Bool.eq_false_iff.mpr positive]
    exact unsigned

theorem Denotes.unique {minus minus' : Bool} {value value' : ℚ} {t : List UInt8}
    (h : Denotes minus value t) (h' : Denotes minus' value' t) :
    minus = minus' ∧ value = value' := by
  obtain ⟨whole, fraction, power, text, rfl⟩ := h
  obtain ⟨whole', fraction', power', text', rfl⟩ := h'
  obtain ⟨rfl, rfl, rfl, rfl⟩ := text.unique text'
  exact ⟨rfl, rfl⟩

/-- **What is written for a finite number determines the number.** -/
theorem text_inj {f : Format} {l : Layout} (plus : l.plus = "+") {x y : Binary f}
    (hx : x.isFinite = true) (hy : y.isFinite = true) (h : bytes (l.text x) = bytes (l.text y)) :
    x = y := by
  obtain ⟨d, text, reads⟩ := denotes_text plus hx
  obtain ⟨d', text', reads'⟩ := denotes_text plus hy
  obtain ⟨sign, value⟩ := text.unique (h ▸ text')
  rw [Binary.readsBack, beq_iff_eq] at reads reads'
  rw [← reads, ← reads', sign, Binary.ofDecimal_congr value]

theorem isNumber_text {f : Format} {l : Layout} (plus : l.plus = "+") {x : Binary f}
    (finite : x.isFinite = true) : IsNumber (bytes (l.text x)) := by
  obtain ⟨d, text, -⟩ := denotes_text plus finite
  exact text.isNumber

/-! ## Numbers that are read back -/

/-- A floating point number in a document, of either width. -/
inductive Floating where
  | single (x : Binary32)
  | double (x : Binary64)
deriving DecidableEq

namespace Floating

/-- The number is not an infinity and not something that is no number. -/
def isFinite : Floating → Bool
  | .single x => x.isFinite
  | .double x => x.isFinite

/-- What is printed for the number reads back as the same number. -/
def Rereads : Floating → Prop
  | .single x => Shape.float32.loadText (Shape.float32.write x).compact = .ok x
  | .double x => Shape.float64.loadText (Shape.float64.write x).compact = .ok x

instance : (x : Floating) → Decidable x.Rereads
  | .single _ => inferInstanceAs (Decidable (_ = _))
  | .double _ => inferInstanceAs (Decidable (_ = _))

end Floating

theorem compact_float32 {x : Binary32} (finite : x.isFinite = true) :
    (Shape.float32.write x).compact = layout32.text x := by
  rw [Shape.write, compact, scalar, if_pos finite]
  all_goals simp

theorem compact_float64 {x : Binary64} (finite : x.isFinite = true) :
    (Shape.float64.write x).compact = layout64.text x := by
  rw [Shape.write, compact, scalar, if_pos finite]
  all_goals simp

theorem exists_read_of_loadBytes {α : Type} {shape : Shape α} {text : List UInt8} {a : α}
    (h : shape.loadBytes text = .ok a) : ∃ rest, shape.read nestingLimit text = .ok (a, rest) := by
  rw [Shape.loadBytes, Shape.load] at h
  cases read : shape.read nestingLimit text with
  | error fault =>
    rw [read] at h
    cases h
  | ok out =>
    rw [read] at h
    cases h
    exact ⟨out.2, rfl⟩

/-- A number that is read off its text is read wherever the text stands. -/
theorem reads_floating {f : Format} {expected : String} {t : List UInt8} {x : Binary f}
    (number : IsNumber t) {j : List UInt8} (h : floating f expected t = .ok (x, j)) :
    Reads (floating f expected) t x := by
  obtain ⟨minus, whole, fraction, power, text⟩ := number
  refine ⟨text.solid, fun gap rest blank apart ↦ ?_⟩
  obtain ⟨n, i, read, convert⟩ := bind_eq_ok.mp h
  have alone := expectNumber_ok expected text .nil .nil
  rw [List.nil_append, List.append_nil, read] at alone
  have value := numberOf_rest alone.symm rest
  rw [floating, bind_ok ((expectNumber_ok expected text blank apart).trans value)]
  cases n <;>
  · cases convert
    rfl

theorem reads_float32 {x : Binary32} (finite : x.isFinite = true)
    (h : (Floating.single x).Rereads) :
    Reads (floating .single "f32") (bytes (Json.float32 x).scalar) x := by
  obtain ⟨rest, read⟩ := exists_read_of_loadBytes h
  rw [scalar, if_pos finite]
  exact reads_floating (isNumber_text rfl finite) (compact_float32 finite ▸ read)

theorem reads_float64 {x : Binary64} (finite : x.isFinite = true)
    (h : (Floating.double x).Rereads) :
    Reads (floating .double "f64") (bytes (Json.float64 x).scalar) x := by
  obtain ⟨rest, read⟩ := exists_read_of_loadBytes h
  rw [scalar, if_pos finite]
  exact reads_floating (isNumber_text rfl finite) (compact_float64 finite ▸ read)

/-! ## Short numbers are read back -/

theorem digitsValue_append_singleton (ds : List UInt8) (d : UInt8) :
    digitsValue (ds ++ [d]) = 10 * digitsValue ds + (d.toNat - 0x30) := by
  rw [digitsValue, List.foldl_append, List.foldl_cons, List.foldl_nil, digitsValue]

theorem digitsValue_le_append (ds more : List UInt8) :
    digitsValue ds ≤ digitsValue (ds ++ more) := by
  induction more generalizing ds with
  | nil => rw [List.append_nil]
  | cons d more ih =>
    have all := ih (ds ++ [d])
    rw [digitsValue_append_singleton, List.append_assoc, List.singleton_append] at all
    omega

theorem gather_digitsValue {ds more : List UInt8} (fits : digitsValue (ds ++ more) < 2 ^ 64) :
    gather (digitsValue ds) more = (digitsValue (ds ++ more), []) := by
  induction more generalizing ds with
  | nil => rw [gather, List.append_nil]
  | cons d more ih =>
    have assoc : ds ++ d :: more = ds ++ [d] ++ more := by simp
    rw [assoc] at fits ⊢
    have next : 10 * digitsValue ds + (d.toNat - 0x30) < Nat.pow 2 64 := by
      rw [← digitsValue_append_singleton]
      exact (digitsValue_le_append _ more).trans_lt fits
    rw [gather, if_pos next, ← digitsValue_append_singleton, ih fits]

theorem gathered_eq {whole after : List UInt8} (fits : digitsValue (whole ++ after) < 2 ^ 64) :
    gathered whole after = ⟨digitsValue (whole ++ after), -(after.length : Int)⟩ := by
  have front : gather 0 whole = (digitsValue whole, []) :=
    @gather_digitsValue [] whole ((digitsValue_le_append whole after).trans_lt fits)
  simp only [gathered, front, gather_digitsValue fits]
  simp

/-- The number that is nearest to an integer of fifty-three bits, sign and digits given apart. -/
theorem ofInt_eq_ofDecimal {n : Nat} (few : n < 2 ^ 53) {z : Int} {minus : Bool}
    (sign : decide (z < 0) = minus) (abs : z.natAbs = n) :
    (Binary.ofInt z : Binary64) = Binary.ofDecimal minus n 0 := by
  have decimal : (Binary.ofDecimal minus n 0 : Binary64) = _ :=
    Numeral.ofDecimal_eq_ofRatio (d := ⟨n, 0⟩) few (Nat.zero_le _)
  rw [decimal, Binary.ofInt, sign, abs]
  simp

section Short

variable {minus : Bool} {whole t : List UInt8} {fraction : Option (List UInt8)}
  {power : Option Int}

/-- A number in a document, as a word. -/
def Reader.Number.word (f : Format) : Number → Binary f
  | .integer n => .ofInt n
  | .float x => x.convert f

theorem word_numberOf?_none (few : digitsValue whole < 2 ^ 53) {x : Binary64}
    (float : Numeral.read? minus ⟨(gathered whole []).digits, (gathered whole []).exponent + 0⟩ =
      some x)
    (word : x.convert .double = x) (nearest : Binary.ofDecimal minus (digitsValue whole) 0 = x) :
    ∃ n, numberOf? minus whole none none = some n ∧ n.word .double = x := by
  rw [numberOf?, Option.getD_none, Option.getD_none, float]
  cases minus with
  | true =>
    rw [if_pos rfl]
    split
    · rename_i positive
      have sign : decide (-(digitsValue whole : Int) < 0) = true := decide_eq_true (by omega)
      exact ⟨_, rfl, (ofInt_eq_ofDecimal few sign (by simp)).trans nearest⟩
    · exact ⟨_, rfl, word⟩
  | false =>
    have sign : decide ((digitsValue whole : Int) < 0) = false := decide_eq_false (by omega)
    rw [if_neg Bool.false_ne_true, if_pos (Nat.lt_trans few (by decide))]
    exact ⟨_, rfl, (ofInt_eq_ofDecimal few sign (by simp)).trans nearest⟩

/-- A short decimal comes to the number nearest to it, in whichever way it is read. -/
theorem word_numberOf? (few : (numeral whole fraction power).digits < 2 ^ 53)
    (near : (numeral whole fraction power).exponent.natAbs ≤ 22) {x : Binary64}
    (finite : x.isFinite = true)
    (nearest : Binary.ofDecimal minus (numeral whole fraction power).digits
      (numeral whole fraction power).exponent = x) :
    ∃ n, numberOf? minus whole fraction power = some n ∧ n.word .double = x := by
  have fits : digitsValue (whole ++ fraction.getD []) < 2 ^ 64 := Nat.lt_trans few (by decide)
  have float : Numeral.read? minus ⟨(gathered whole (fraction.getD [])).digits,
      (gathered whole (fraction.getD [])).exponent + power.getD 0⟩ = some x := by
    have same : (⟨digitsValue (whole ++ fraction.getD []),
        -((fraction.getD []).length : Int) + power.getD 0⟩ : Numeral) =
          numeral whole fraction power := by
      rw [numeral, neg_add_eq_sub]
    rw [gathered_eq fits, same, Numeral.read?_eq_ofDecimal few near, nearest]
  have word : (Number.float x).word .double = x := Binary.convert_self finite
  cases fraction with
  | some ds =>
    rw [numberOf?, float]
    · exact ⟨_, rfl, word⟩
    · simp
  | none =>
    cases power with
    | some e =>
      rw [numberOf?, float]
      · exact ⟨_, rfl, word⟩
      · simp
    | none =>
      have digits : (numeral whole none none).digits = digitsValue whole := by simp [numeral]
      have exponent : (numeral whole none none).exponent = 0 := rfl
      rw [digits] at few nearest
      rw [exponent] at nearest
      exact word_numberOf?_none few float word nearest

theorem floating_short (text : NumberText minus whole fraction power t)
    (few : (numeral whole fraction power).digits < 2 ^ 53)
    (near : (numeral whole fraction power).exponent.natAbs ≤ 22) {x : Binary64}
    (finite : x.isFinite = true)
    (nearest : Binary.ofDecimal minus (numeral whole fraction power).digits
      (numeral whole fraction power).exponent = x) (expected : String) :
    floating .double expected t = .ok (x, []) := by
  obtain ⟨n, found, word⟩ := word_numberOf? few near finite nearest
  have alone := expectNumber_ok expected text .nil .nil
  rw [List.nil_append, List.append_nil, numberOf, found] at alone
  rw [floating, bind_ok alone, ← word]
  cases n <;> rfl

end Short

/-- **A number of sixty-four bits is read back if its text has few digits and a small exponent.**
The digits and the exponent are those that the text has when its point is left out. -/
theorem Floating.rereads_double {x : Binary64} (finite : x.isFinite = true) {whole : List UInt8}
    {fraction : Option (List UInt8)} {power : Option Int}
    (text : NumberText x.negative whole fraction power (bytes (layout64.text x)))
    (few : (numeral whole fraction power).digits < 2 ^ 53)
    (near : (numeral whole fraction power).exponent.natAbs ≤ 22) : (Floating.double x).Rereads := by
  obtain ⟨d, denotes, reads⟩ := denotes_text (l := layout64) rfl finite
  obtain ⟨-, value⟩ := denotes.unique ⟨whole, fraction, power, text, rfl⟩
  rw [Binary.readsBack, beq_iff_eq, Binary.ofDecimal_congr value] at reads
  have read := floating_short text few near finite reads "f64"
  have loaded : Shape.float64.read nestingLimit (bytes (layout64.text x)) = .ok (x, []) := read
  change Shape.float64.loadBytes (bytes _) = _
  rw [compact_float64 finite, Shape.loadBytes, Shape.load, loaded]
  rfl

end Json

end IdlLinker
