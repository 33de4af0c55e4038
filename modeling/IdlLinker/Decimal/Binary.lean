/-!
# Binary floating point numbers

A literal of a floating point type is a word in one of two binary interchange formats. This module
says which real number a word stands for and which word stands for a real number best, in exact
arithmetic on natural numbers: no rounding happens anywhere but in `roundQuotient`.

## Magnitudes as integers

The words of one sign, read as integers, are in the order of the numbers they stand for. So the word
of a number with significand `m` on the grid `2 ^ q` is `(q - q₀) * 2 ^ p + m`, where `q₀` is the
finest grid and `p` the number of fraction bits: a significand that rounds up to the next power of
two carries into the exponent by itself, subnormal numbers need no case of their own, and whatever
reaches the word of infinity has overflowed.
-/

namespace IdlLinker.Decimal

/-- The widths of the two fields of a binary interchange format. -/
structure Format where
  /-- Bits of the fraction field. -/
  fractionBits : Nat
  /-- Bits of the exponent field. -/
  exponentBits : Nat

namespace Format

def single : Format := ⟨23, 8⟩

def double : Format := ⟨52, 11⟩

variable (f : Format)

/-- Sign, exponent and fraction together. -/
def width : Nat := 1 + f.exponentBits + f.fractionBits

/-- The exponent field of the number one. -/
def bias : Nat := Nat.pow 2 (f.exponentBits - 1) - 1

/-- The exponent of the finest grid, that of the subnormal numbers. -/
def finest : Int := 1 - (f.bias : Int) - f.fractionBits

/-- The magnitude, as an integer, of the word that stands for infinity. -/
def infinity : Nat := (Nat.pow 2 f.exponentBits - 1) * Nat.pow 2 f.fractionBits

end Format

/-- A word of a binary format. -/
structure Binary (f : Format) where
  /-- The word. -/
  bits : BitVec f.width
deriving DecidableEq, Repr

abbrev Binary32 := Binary Format.single

abbrev Binary64 := Binary Format.double

/-! ## Rounding -/

/-- The integer nearest to `num / den`; of two equally near ones the even one. -/
def roundQuotient (num den : Nat) : Nat :=
  let low := num / den
  let twice := 2 * (num % den)
  if twice < den then low
  else if den < twice then low + 1
  else low + low % 2

/-- A quotient scaled by a power of two, again as a quotient. -/
def scaled (num den : Nat) (power : Int) : Nat × Nat :=
  (num * Nat.pow 2 power.toNat, den * Nat.pow 2 (-power).toNat)

/-- The exponent of the greatest power of two that is at most `num / den`. -/
def binaryExponent (num den : Nat) : Int :=
  let guess : Int := (Nat.log2 num : Int) - Nat.log2 den
  let (n, d) := scaled num den (-guess)
  if n < d then guess - 1 else guess

namespace Binary

variable {f : Format}

/-- The word with a sign and a magnitude. -/
def ofMagnitude (negative : Bool) (magnitude : Nat) : Binary f :=
  ⟨BitVec.ofNat f.width ((if negative then Nat.pow 2 (f.width - 1) else 0) + magnitude)⟩

/-- The word nearest to `num / den`: ties go to the even significand, and what is too great for the
format goes to infinity. -/
def ofRatio (negative : Bool) (num den : Nat) : Binary f :=
  if num = 0 then ofMagnitude negative 0
  else
    let grid := max f.finest (binaryExponent num den - f.fractionBits)
    let (n, d) := scaled num den (-grid)
    let magnitude := (grid - f.finest).toNat * Nat.pow 2 f.fractionBits + roundQuotient n d
    ofMagnitude negative (min magnitude f.infinity)

/-- Number of decimal digits; none for zero. -/
def digitCount (n : Nat) : Nat := if n = 0 then 0 else (Nat.toDigits 10 n).length

/-- The word nearest to `digits * 10 ^ exponent`. Decimal exponents far outside the range of the
format are decided by their size, so that no power is ever computed that the result cannot need. -/
def ofDecimal (negative : Bool) (digits : Nat) (exponent : Int) : Binary f :=
  let top := exponent + digitCount digits
  if digits = 0 then ofMagnitude negative 0
  else if (f.bias : Int) + 1 < top then ofMagnitude negative f.infinity
  else if top < -((f.bias : Int) + f.fractionBits + 1) then ofMagnitude negative 0
  else ofRatio negative (digits * Nat.pow 10 exponent.toNat) (Nat.pow 10 (-exponent).toNat)

/-- The word nearest to an integer. -/
def ofInt (n : Int) : Binary f := ofRatio (n < 0) n.natAbs 1

/-! ## Reading a word -/

def negative (x : Binary f) : Bool := x.bits.msb

/-- The word without its sign, as an integer. -/
def magnitude (x : Binary f) : Nat := x.bits.toNat % Nat.pow 2 (f.width - 1)

def exponentField (x : Binary f) : Nat := x.magnitude / Nat.pow 2 f.fractionBits

def fractionField (x : Binary f) : Nat := x.magnitude % Nat.pow 2 f.fractionBits

/-- Whether the word stands for a number, not for an infinity or for no number. -/
def isFinite (x : Binary f) : Bool := x.magnitude < f.infinity

/-- Whether the word stands for no number at all. -/
def isNaN (x : Binary f) : Bool := f.infinity < x.magnitude

/-- Whether the word stands for zero, of either sign. -/
def isZero (x : Binary f) : Bool := x.magnitude = 0

/-- The significand of a finite number, hidden bit included. -/
def significand (x : Binary f) : Nat :=
  if x.exponentField = 0 then x.fractionField else Nat.pow 2 f.fractionBits + x.fractionField

/-- The exponent of the grid on which a finite number stands. -/
def grid (x : Binary f) : Int := f.finest + ((x.exponentField - 1 : Nat) : Int)

/-- The absolute value of a finite number as a quotient. -/
def ratio (x : Binary f) : Nat × Nat := scaled x.significand 1 x.grid

/-- The same sign and the other format: the nearest number there. -/
def convert (g : Format) (x : Binary f) : Binary g :=
  if x.isNaN then ofMagnitude x.negative (g.infinity + Nat.pow 2 (g.fractionBits - 1))
  else if x.isFinite then ofRatio x.negative x.ratio.1 x.ratio.2
  else ofMagnitude x.negative g.infinity

/-- Equality of the numbers that two words stand for: the zeros are equal, and a word that stands
for no number equals nothing. -/
def agrees (x y : Binary f) : Bool :=
  !x.isNaN && !y.isNaN && (x.bits == y.bits || (x.isZero && y.isZero))

/-- The word in hexadecimal digits, as many as its width takes. -/
def hex (x : Binary f) : String :=
  let digits := Nat.toDigits 16 x.bits.toNat
  String.ofList (List.replicate (f.width / 4 - digits.length) '0' ++ digits)

end Binary

end IdlLinker.Decimal
