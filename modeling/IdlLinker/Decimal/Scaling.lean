import IdlLinker.Decimal.Shortest

/-!
# Decimals read in machine arithmetic

The nearest word to a decimal is expensive to find, and a reader of documents does not look for it.
It keeps as many of the digits as fit into sixty-four bits, takes them for a number of the format,
and multiplies or divides that by a power of ten. Each of these steps rounds, so the word that it
comes to may be a neighbour of the nearest one: `1e-24` is read as one word, and what is printed for
this word is read as another.

What a decimal is read as is part of what a document means, so the steps are taken here one by one
as the machine takes them. Each of them is exact arithmetic on the numbers that the words stand for,
rounded by `Binary.ofRatio`. Two kinds of decimal get round the table of the powers of ten, which
ends with the greatest one that the format has: those that are too great, which have no word, and
those that are so small that they have to be divided more than once. The latter come to zero after
few steps, and then the loop ends, however small they are.
-/

namespace IdlLinker.Decimal

namespace Binary

variable {f : Format}

def signed (negative : Bool) (x : Binary f) : Binary f := ofMagnitude negative x.magnitude

/-- The word nearest to the product of two finite numbers. -/
def product (x y : Binary f) : Binary f :=
  ofRatio (x.negative ^^ y.negative) (x.ratio.1 * y.ratio.1) (x.ratio.2 * y.ratio.2)

/-- The word nearest to the quotient of two finite numbers, the second of which is not zero. -/
def quotient (x y : Binary f) : Binary f :=
  ofRatio (x.negative ^^ y.negative) (x.ratio.1 * y.ratio.2) (x.ratio.2 * y.ratio.1)

/-- The exponent of the last power of ten in the table. -/
def tableEnd : Nat := 308

/-- A power of ten in the table. -/
def powerOfTen (n : Nat) : Binary64 := ofDecimal false 1 n

/-- Divides by the last power of ten in the table so many times, or until there is nothing left to
divide, and then by the power of ten that is left. -/
def lower : Nat → Nat → Binary64 → Binary64
  | 0, left, x => x.quotient (powerOfTen left)
  | steps + 1, left, x =>
    if x.isZero then x else lower steps left (x.quotient (powerOfTen tableEnd))

/-- A number times a power of ten, unless that is too great for the format. -/
def scale? (x : Binary64) (exponent : Int) : Option Binary64 :=
  if exponent < 0 then
    let steps := ((-exponent).toNat - 1) / tableEnd
    some (lower steps ((-exponent).toNat - tableEnd * steps) x)
  else if exponent ≤ tableEnd then
    let y := x.product (powerOfTen exponent.toNat)
    if y.isFinite then some y else none
  else if x.isZero then some x
  else none

end Binary

namespace Numeral

/-- What a decimal is read as; it has a sign of its own. -/
def read? (negative : Bool) (d : Numeral) : Option Binary64 :=
  ((Binary.ofInt d.digits).scale? d.exponent).map (·.signed negative)

end Numeral

end IdlLinker.Decimal
