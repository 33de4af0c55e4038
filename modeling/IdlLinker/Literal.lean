import IdlLinker.Decimal.Layout

/-!
# Literals

A literal is a scalar exactly as the source wrote it, with the type under which it was written.
Graphs and modules hold the same literals.

Infinities and words that stand for no number are written as built-in constants, never as literals;
`Literal.isRepresentable` says which literals a value may be.

Equality and agreement are two things here. As data, two literals are equal if they have the same
type and the same word, and that is decidable even for words that stand for no number.
`Literal.agrees` compares them as numbers instead, where the zeros are equal and what is no number
equals nothing.
-/

namespace IdlLinker

open Decimal

/-- A scalar of one of the types a literal can have. -/
inductive Literal where
  | bool (b : Bool)
  | int8 (n : Int8)
  | int16 (n : Int16)
  | int32 (n : Int32)
  | int64 (n : Int64)
  | uint8 (n : UInt8)
  | uint16 (n : UInt16)
  | uint32 (n : UInt32)
  | uint64 (n : UInt64)
  | float (x : Binary32)
  | double (x : Binary64)
  | string (s : String)
deriving DecidableEq

namespace Literal

/-- Floating point literals are positional from `1e-4` up to below `1e16`, and a tie goes up. -/
def layout : Layout := ⟨-4, 15, "", .up⟩

/-- The text of a literal as an attribute holds it: a string stands for itself. -/
def attributeText : Literal → String
  | .bool b => if b then "true" else "false"
  | .int8 n => toString n.toInt
  | .int16 n => toString n.toInt
  | .int32 n => toString n.toInt
  | .int64 n => toString n.toInt
  | .uint8 n => toString n.toNat
  | .uint16 n => toString n.toNat
  | .uint32 n => toString n.toNat
  | .uint64 n => toString n.toNat
  | .float x => layout.text x
  | .double x => layout.text x
  | .string s => s

/-- The text of a literal as a value shows it: a string stands between quotes. -/
def text : Literal → String
  | .string s => "\"" ++ s ++ "\""
  | l => l.attributeText

/-- Whether a value may be this literal: a floating point number has to be finite. -/
def isRepresentable : Literal → Bool
  | .float x => x.isFinite
  | .double x => x.isFinite
  | _ => true

def typeName : Literal → String
  | .bool _ => "bool"
  | .int8 _ => "int8"
  | .int16 _ => "int16"
  | .int32 _ => "int32"
  | .int64 _ => "int64"
  | .uint8 _ => "uint8"
  | .uint16 _ => "uint16"
  | .uint32 _ => "uint32"
  | .uint64 _ => "uint64"
  | .float _ => "float"
  | .double _ => "double"
  | .string _ => "string"

/-- The word of a floating point literal in hexadecimal digits. -/
def word? : Literal → Option String
  | .float x => some x.hex
  | .double x => some x.hex
  | _ => none

/-- Equality of literals as values of their types: floating point numbers compare as numbers. -/
def agrees : Literal → Literal → Bool
  | .float x, .float y => x.agrees y
  | .double x, .double y => x.agrees y
  | l, m => l == m

end Literal

/-- A constant that every source can name without declaring it. -/
inductive Builtin where
  | doubleInfinity
  | doubleNegativeInfinity
  | doubleNan
  | floatInfinity
  | floatNegativeInfinity
  | floatNan
deriving DecidableEq, Repr

namespace Builtin

/-- The way a source names the constant. -/
def symbol : Builtin → String
  | .doubleInfinity => "double.INFINITY"
  | .doubleNegativeInfinity => "double.NEGATIVE_INFINITY"
  | .doubleNan => "double.NAN"
  | .floatInfinity => "float.INFINITY"
  | .floatNegativeInfinity => "float.NEGATIVE_INFINITY"
  | .floatNan => "float.NAN"

end Builtin

/-- The types that have no parts. -/
inductive Primitive where
  | bool
  | int8
  | int16
  | int32
  | int64
  | uint8
  | uint16
  | uint32
  | uint64
  | float
  | double
deriving DecidableEq, Repr

/-- The kinds of handles to objects of the system. -/
inductive Handle where
  | generic
  | messagePipe
  | dataConsumer
  | dataProducer
  | sharedBuffer
deriving DecidableEq, Repr

end IdlLinker
