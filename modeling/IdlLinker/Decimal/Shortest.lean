import IdlLinker.Decimal.Binary

/-!
# The fewest digits that read back

Every finite word has decimals that are nearer to it than to any other word, and the written form of
a floating point literal is one with the fewest digits. For each number of digits only the two
decimals on either side of the exact value have to be looked at: if any decimal with that many
digits reads back, so does one of those two.

Of two decimals that both read back the nearer one is written. When they are equally near the
destination decides, which is why the choice is a parameter.
-/

namespace IdlLinker.Decimal

/-- A decimal `digits * 10 ^ exponent`. -/
structure Numeral where
  /-- The digits, as an integer. -/
  digits : Nat
  /-- The power of ten of the last digit. -/
  exponent : Int
deriving DecidableEq, Repr

/-- Which of two equally near decimals is taken. -/
inductive Tie where
  /-- The greater one. -/
  | up
  /-- The one whose last digit is even. -/
  | even
deriving DecidableEq, Repr

namespace Numeral

/-- Moves the zeros at the end of the digits into the exponent; `fuel` bounds their number. -/
def trim : Nat → Numeral → Numeral
  | 0, d => d
  | fuel + 1, d =>
    if d.digits ≠ 0 ∧ d.digits % 10 = 0 then trim fuel ⟨d.digits / 10, d.exponent + 1⟩ else d

/-- The power of ten of the first digit. -/
def leading (d : Numeral) : Int := d.exponent + Binary.digitCount d.digits - 1

end Numeral

/-- The exponent of the greatest power of ten that is at most `num / den`. -/
def decimalExponent (num den : Nat) : Int :=
  let guess : Int := (Binary.digitCount num : Int) - Binary.digitCount den
  if num * Nat.pow 10 (-guess).toNat < den * Nat.pow 10 guess.toNat then guess - 1 else guess

namespace Binary

variable {f : Format}

/-- Whether a decimal reads back as the magnitude of a word. -/
def readsBack (x : Binary f) (d : Numeral) : Bool :=
  (ofDecimal x.negative d.digits d.exponent : Binary f) == x

/-- The better of the two decimals around a word on the grid `10 ^ exponent`, if one reads back. -/
def onGrid? (tie : Tie) (x : Binary f) (exponent : Int) : Option Numeral :=
  let num := x.ratio.1 * Nat.pow 10 (-exponent).toNat
  let den := x.ratio.2 * Nat.pow 10 exponent.toNat
  let low : Numeral := ⟨num / den, exponent⟩
  let high : Numeral := ⟨num / den + 1, exponent⟩
  let twice := 2 * (num % den)
  let lowFirst := decide (twice < den) ||
    (decide (twice = den) && decide (tie = .even) && low.digits % 2 == 0)
  let (first, second) := if lowFirst then (low, high) else (high, low)
  if x.readsBack first then some first
  else if x.readsBack second then some second
  else none

/-- All digits of a finite number. -/
def exactDecimal (x : Binary f) : Numeral :=
  ⟨x.significand * Nat.pow 2 x.grid.toNat * Nat.pow 5 (-x.grid).toNat, min 0 x.grid⟩

/-- The grids for one digit, two digits, and so on up to the seventeen digits of which no word of
either format needs more. -/
def grids (x : Binary f) : List Int :=
  (List.range 17).map fun (n : Nat) ↦ decimalExponent x.ratio.1 x.ratio.2 - (n : Int)

/-- The decimal with the fewest digits that reads back as a finite nonzero number. -/
def shortest (tie : Tie) (x : Binary f) : Numeral :=
  let d := (x.grids.findSome? (x.onGrid? tie)).getD x.exactDecimal
  d.trim (digitCount d.digits)

end Binary

end IdlLinker.Decimal
