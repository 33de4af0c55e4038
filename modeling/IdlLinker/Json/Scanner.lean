import IdlLinker.Decimal.Scaling
import IdlLinker.Json.Fault

/-!
# Reading the words of a document

A document arrives as bytes, and a `Reader` takes a value off their front. This module reads what
every shape is made of: blanks, keywords, numbers, strings, and the punctuation of lists and
objects.

Each loop is bounded by the length of the input that is left, and each of its turns takes at least
one byte; so a loop that comes to its bound stands before the end of the input, and answers as it
does there.

A reader is a function of the input that is left, so there is no position to keep track of, and a
fault has a path but no line. The path grows from the inside out: each reader of a part puts its own
step in front of what went wrong in it (`inside`). The two ways to treat a value, to read it and to
pass over it, share the readers of punctuation and of the parts of numbers and differ in what they
do about strings: one that is passed over need not be well formed as text.
-/

namespace IdlLinker.Json

open Decimal

/-- Takes a value off the front of the bytes that are left. -/
abbrev Reader := StateT (List UInt8) (Except Fault)

namespace Reader

variable {α σ κ : Type}

/-- Stops at the current value. -/
def fail (cause : Cause) : Reader α := fun _ ↦ .error ⟨[], cause⟩

/-- Reads a part of the current value; its faults lie one step further in. -/
def inside (segment : Segment) (reader : Reader α) : Reader α := fun input ↦
  (reader input).mapError (·.under segment)

/-! ## Bytes -/

/-- Whether a byte is a blank between the words of a document. -/
def isBlank (b : UInt8) : Bool := b == 0x20 || b == 0x0a || b == 0x0d || b == 0x09

def isDigit (c : Char) : Bool := '0' ≤ c && c ≤ '9'

/-- The next byte, as the character it stands for by itself; it stays in the input. -/
def peek : Reader (Option Char) := fun input ↦ .ok (input.head?.map Char.ofUInt8, input)

def advance : Reader Unit := fun input ↦ .ok ((), input.tail)

/-- Drops blanks, and looks at the byte after them. -/
def next : Reader (Option Char) := fun input ↦ peek (input.dropWhile isBlank)

def remaining : Reader Nat := fun input ↦ .ok (input.length, input)

/-- Takes the next byte if it is the given character. -/
def take? (c : Char) : Reader Bool := do
  if (← peek) = some c then advance; return true
  else return false

/-- Takes the rest of a keyword. -/
def keyword : List Char → Reader Unit
  | [] => return ()
  | c :: rest => do
    match ← peek with
    | none => fail .endInValue
    | some d => if d = c then advance; keyword rest else fail .expectedKeyword

/-! ## Numbers -/

/-- A number as it stands in a document: an integer when it is written as one and fits into
sixty-four bits, signed or not. -/
inductive Number where
  | integer (n : Int)
  | float (x : Binary64)

/-- Takes the longest run of digits. -/
def digits : Reader (List UInt8) := fun input ↦
  let isDigitByte (b : UInt8) := isDigit (Char.ofUInt8 b)
  .ok (input.takeWhile isDigitByte, input.dropWhile isDigitByte)

/-- The number that digits stand for. -/
def digitsValue (ds : List UInt8) : Nat := ds.foldl (fun n d ↦ 10 * n + (d.toNat - 0x30)) 0

/-- Takes digits where at least one has to stand. -/
def someDigits (atEnd : Cause) : Reader (List UInt8) := do
  match ← peek with
  | none => fail atEnd
  | some c => if isDigit c then digits else fail .invalidNumber

/-- Takes the digits before the point: no zero stands before another digit. -/
def wholeDigits (atEnd : Cause) : Reader (List UInt8) := do
  let ds ← someDigits atEnd
  if ds.head? = some 0x30 ∧ 1 < ds.length then fail .invalidNumber else return ds

/-- Takes a point and the digits after it, if a point comes next. -/
def fractionDigits (atEnd : Cause) : Reader (Option (List UInt8)) := do
  if ← take? '.' then return some (← someDigits atEnd) else return none

/-- Takes the mark of an exponent, in either case, if it comes next. -/
def exponentMark : Reader Bool := do
  if ← take? 'e' then return true else take? 'E'

/-- Takes an exponent, if its mark comes next. -/
def exponent (atEnd : Cause) : Reader (Option Int) := do
  if ← exponentMark then
    let minus ← take? '-'
    unless minus do let _ ← take? '+'
    let n := digitsValue (← someDigits atEnd)
    return some (if minus then -(n : Int) else n)
  else return none

/-- Appends digits to a significand of sixty-four bits, as many as fit; the others are left. -/
def gather (n : Nat) : List UInt8 → Nat × List UInt8
  | [] => (n, [])
  | d :: ds =>
    let more := 10 * n + (d.toNat - 0x30)
    if more < Nat.pow 2 64 then gather more ds else (n, d :: ds)

/-- The decimal that digits before and after the point are taken for. Digits that do not fit before
the point are counted as zeros, and those that do not fit after it are dropped. -/
def gathered (whole after : List UInt8) : Numeral :=
  let (front, left) := gather 0 whole
  let (all, dropped) := gather front after
  ⟨all, (left.length : Int) - (after.length - dropped.length : Nat)⟩

/-- The number that the parts of its text stand for, unless it is too great. -/
def numberOf? (minus : Bool) (whole : List UInt8) (fraction : Option (List UInt8))
    (power : Option Int) : Option Number :=
  let n := digitsValue whole
  let d := gathered whole (fraction.getD [])
  let float? := (Numeral.read? minus ⟨d.digits, d.exponent + power.getD 0⟩).map Number.float
  match fraction, power with
  | none, none =>
    if minus then
      if 0 < n ∧ n ≤ Nat.pow 2 63 then some (.integer (-(n : Int))) else float?
    else if n < Nat.pow 2 64 then some (.integer n)
    else float?
  | _, _ => float?

/-- Comes to the number that the parts of its text stand for. -/
def numberOf (minus : Bool) (whole : List UInt8) (fraction : Option (List UInt8))
    (power : Option Int) : Reader Number :=
  match numberOf? minus whole fraction power with
  | some n => return n
  | none => fail .numberOutOfRange

/-- Reads a number; its sign or its first digit comes next. -/
def number : Reader Number := do
  let minus ← take? '-'
  let whole ← wholeDigits .endInValue
  let fraction ← fractionDigits .endInValue
  let power ← exponent .endInValue
  numberOf minus whole fraction power

def skipNumber : Reader Unit := do
  let _ ← take? '-'
  let _ ← wholeDigits .invalidNumber
  let _ ← fractionDigits .invalidNumber
  let _ ← exponent .invalidNumber

/-! ## Strings -/

def hexDigit? (b : UInt8) : Option Nat :=
  let c := Char.ofUInt8 b
  if isDigit c then some (b.toNat - 0x30)
  else if 'a' ≤ c ∧ c ≤ 'f' then some (b.toNat - 0x61 + 10)
  else if 'A' ≤ c ∧ c ≤ 'F' then some (b.toNat - 0x41 + 10)
  else none

def hexUnit : Reader Nat
  | a :: b :: c :: d :: rest =>
    match hexDigit? a, hexDigit? b, hexDigit? c, hexDigit? d with
    | some a, some b, some c, some d => .ok (((a * 16 + b) * 16 + c) * 16 + d, rest)
    | _, _, _, _ => .error ⟨[], .invalidEscape⟩
  | _ => .error ⟨[], .endInString⟩

/-- Whether a unit is the first of a surrogate pair. -/
def isHighSurrogate (n : Nat) : Bool := 0xd800 ≤ n && n < 0xdc00

/-- Whether a unit is the second of a surrogate pair. -/
def isLowSurrogate (n : Nat) : Bool := 0xdc00 ≤ n && n < 0xe000

/-- Takes one character of the beginning of a second escape. -/
def secondEscape (c : Char) : Reader Unit := do
  match ← peek with
  | none => fail .endInString
  | some d => if d = c then advance else fail .unfinishedSurrogate

/-- Takes the units of an escaped character: one, or a surrogate pair. -/
def escapedUnits : Reader Char := do
  let high ← hexUnit
  if isLowSurrogate high then fail .loneSurrogate
  else if isHighSurrogate high then
    secondEscape '\\'
    secondEscape 'u'
    let low ← hexUnit
    if isLowSurrogate low then
      return Char.ofNat (0x10000 + (high - 0xd800) * 0x400 + (low - 0xdc00))
    else fail .loneSurrogate
  else return Char.ofNat high

/-- The character that a letter after a backslash stands for. -/
def shortEscape? : Char → Option Char
  | '"' => some '"'
  | '\\' => some '\\'
  | '/' => some '/'
  | 'b' => some '\x08'
  | 'f' => some '\x0c'
  | 'n' => some '\n'
  | 'r' => some '\r'
  | 't' => some '\t'
  | _ => none

/-- Takes what follows a backslash. -/
def escaped : Reader Char := do
  match ← peek with
  | none => fail .endInString
  | some c =>
    advance
    match shortEscape? c with
    | some d => return d
    | none => if c = 'u' then escapedUnits else fail .invalidEscape

/-- Takes a string up to its closing quote, escapes resolved; `back` holds the bytes read, last
first. -/
def stringBytes : Nat → List UInt8 → Reader (List UInt8)
  | 0, _ => fail .endInString
  | fuel + 1, back => do
    match ← get with
    | [] => fail .endInString
    | b :: _ =>
      advance
      if Char.ofUInt8 b = '"' then return back.reverse
      else if Char.ofUInt8 b = '\\' then
        let c ← escaped
        stringBytes fuel ((String.utf8EncodeChar c).reverse ++ back)
      else if b < 0x20 then fail .controlCharacter
      else stringBytes fuel (b :: back)

/-- Reads a string after its opening quote. -/
def string : Reader String := do
  let bytes ← stringBytes (← remaining) []
  match String.fromUTF8? ⟨bytes.toArray⟩ with
  | some s => return s
  | none => fail .invalidEncoding

/-- Passes over what follows a backslash; surrogates need not be paired. -/
def skipEscaped : Reader Unit := do
  match ← peek with
  | none => fail .endInString
  | some c =>
    advance
    if c = 'u' then let _ ← hexUnit
    else if (shortEscape? c).isNone then fail .invalidEscape

/-- Passes over a string after its opening quote. -/
def skipString : Nat → Reader Unit
  | 0 => fail .endInString
  | fuel + 1 => do
    match ← get with
    | [] => fail .endInString
    | b :: _ =>
      advance
      if Char.ofUInt8 b = '"' then return ()
      else if Char.ofUInt8 b = '\\' then
        skipEscaped
        skipString fuel
      else if b < 0x20 then fail .controlCharacter
      else skipString fuel

/-! ## Punctuation -/

/-- Whether another item follows in a list; the comma before it is taken. -/
def nextItem (first : Bool) : Reader Bool := do
  match ← next with
  | none => fail .endInList
  | some ']' => return false
  | some c =>
    if first then return true
    else if c = ',' then
      advance
      match ← next with
      | none => fail .endInValue
      | some ']' => fail .trailingComma
      | some _ => return true
    else fail .expectedListEnd

/-- Takes the end of a list of which no further item is wanted. -/
def closeList : Reader Unit := do
  match ← next with
  | none => fail .endInList
  | some ']' => advance
  | some ',' =>
    advance
    if (← next) = some ']' then fail .trailingComma else fail .trailingItems
  | some _ => fail .trailingItems

/-- Whether another member follows in an object; the comma before it and the opening quote of its
key are taken. -/
def nextMember (first : Bool) : Reader Bool := do
  match ← next with
  | none => fail .endInObject
  | some '\x7d' => return false
  | some c =>
    if first then
      if c = '"' then advance; return true else fail .keyNotText
    else if c = ',' then
      advance
      match ← next with
      | none => fail .endInValue
      | some '"' => advance; return true
      | some '\x7d' => fail .trailingComma
      | some _ => fail .keyNotText
    else fail .expectedObjectEnd

/-- Takes the colon between a key and its value. -/
def colon : Reader Unit := do
  match ← next with
  | none => fail .endInObject
  | some ':' => advance
  | some _ => fail .expectedColon

/-- Reads the items of a list, up to and with its closing bracket. -/
def items (item : Reader α) : Nat → Nat → List α → Reader (List α)
  | 0, _, _ => fail .endInList
  | fuel + 1, index, back => do
    if ← nextItem (index = 0) then
      let a ← inside (.item index) item
      items item fuel (index + 1) (a :: back)
    else
      advance
      return back.reverse

/-- Reads the members of an object, up to and with its closing brace: `key` reads a key after its
opening quote, and `step` the rest of the member. -/
def members (key : Reader κ) (step : κ → σ → Reader σ) : Nat → Bool → σ → Reader σ
  | 0, _, _ => inside .unnamed (fail .endInObject)
  | fuel + 1, first, state => do
    let more ← inside .unnamed do
      if ← nextMember first then return some (← key) else return none
    match more with
    | some k => members key step fuel false (← step k state)
    | none =>
      advance
      return state

end Reader

end IdlLinker.Json
