import IdlLinker.Decimal.Shortest

/-!
# Layouts of floating point numbers

The digits of a number are one thing and their arrangement another: where positional notation ends,
how an exponent is written, and which of two equally near decimals is meant. A `Layout` holds these
decisions for one destination.

There are three destinations: attributes, and the documents with numbers of either width. They agree
on the digits, which are the fewest that read back, and on little else. A layout takes part in the
choice of the digits only through `Tie`, where two decimals with equally few digits are equally
near.
-/

namespace IdlLinker.Decimal

/-- How the numbers of one destination are arranged. A number whose first digit stands for the
power `10 ^ k` is written positionally when `k` is between `least` and `greatest`. -/
structure Layout where
  /-- The least first digit that is written positionally. -/
  least : Int
  /-- The greatest first digit that is written positionally. -/
  greatest : Int
  /-- The sign of an exponent that is not negative. -/
  plus : String
  /-- Which of two equally near decimals is taken. -/
  tie : Tie

namespace Layout

/-- Digits with a point after the first `whole` of them; at least one digit stands on either
side. -/
def pointed (digits : List Char) (whole : Int) : String :=
  if whole ≤ 0 then "0." ++ String.ofList (List.replicate (-whole).toNat '0' ++ digits)
  else
    let n := whole.toNat
    let front := digits.take n ++ List.replicate (n - digits.length) '0'
    let back := digits.drop n
    String.ofList front ++ "." ++ (if back.isEmpty then "0" else String.ofList back)

/-- One digit, a point and the others; no point when there are no others. -/
def normalized : List Char → String
  | [] => "0"
  | [d] => String.singleton d
  | d :: rest => String.singleton d ++ "." ++ String.ofList rest

/-- The exponent with its mark and sign. -/
def exponentText (l : Layout) (e : Int) : String :=
  "e" ++ (if e < 0 then "-" else l.plus) ++ toString e.natAbs

/-- The text of a decimal that is not zero. -/
def decimalText (l : Layout) (d : Numeral) : String :=
  let digits := Nat.toDigits 10 d.digits
  if l.least ≤ d.leading ∧ d.leading ≤ l.greatest then pointed digits (d.leading + 1)
  else normalized digits ++ l.exponentText d.leading

/-- The text of a word. -/
def text {f : Format} (l : Layout) (x : Binary f) : String :=
  if x.isNaN then "NaN"
  else
    (if x.negative then "-" else "") ++
      (if !x.isFinite then "inf"
        else if x.isZero then "0.0"
        else l.decimalText (x.shortest l.tie))

end Layout

end IdlLinker.Decimal
