import IdlLinker.Json.Scanner
import IdlLinker.Numbered
import IdlLinker.Table

/-!
# Shapes of documents

A `Shape α` describes the documents that stand for values of `α`. The one description drives both
directions: `Shape.read` takes a value off a document and `Shape.write` gives the document of a
value, so that the two cannot drift apart.

A record is described field by field. Three types go with its fields: the record itself, the tuple
of its parts, and the tuple of *slots* that fill up while the members of an object are read in
whatever order they come.

## Nesting

Documents may be nested only so far, and a shape that occurs inside itself is unrolled to that
depth. `Shape.tooDeep` stands where the unrolling ends; no accepted document gets there.
-/

namespace IdlLinker

open Decimal

namespace Json

/-- A range of integers and the type that holds them. -/
structure IntegerRange (α : Type) where
  /-- The name of the range in faults. -/
  name : String
  /-- The least integer. -/
  least : Int
  /-- The greatest integer. -/
  greatest : Int
  /-- The value that stands for an integer of the range. -/
  ofInt : Int → α
  /-- The integer that a value stands for. -/
  toInt : α → Int

namespace IntegerRange

def int8 : IntegerRange Int8 :=
  ⟨"i8", Int8.minValue.toInt, Int8.maxValue.toInt, Int8.ofInt, Int8.toInt⟩

def int16 : IntegerRange Int16 :=
  ⟨"i16", Int16.minValue.toInt, Int16.maxValue.toInt, Int16.ofInt, Int16.toInt⟩

def int32 : IntegerRange Int32 :=
  ⟨"i32", Int32.minValue.toInt, Int32.maxValue.toInt, Int32.ofInt, Int32.toInt⟩

def int64 : IntegerRange Int64 :=
  ⟨"i64", Int64.minValue.toInt, Int64.maxValue.toInt, Int64.ofInt, Int64.toInt⟩

def uint8 : IntegerRange UInt8 :=
  ⟨"u8", 0, UInt8.size - 1, fun n ↦ .ofNat n.toNat, fun x ↦ x.toNat⟩

def uint16 : IntegerRange UInt16 :=
  ⟨"u16", 0, UInt16.size - 1, fun n ↦ .ofNat n.toNat, fun x ↦ x.toNat⟩

def uint32 : IntegerRange UInt32 :=
  ⟨"u32", 0, UInt32.size - 1, fun n ↦ .ofNat n.toNat, fun x ↦ x.toNat⟩

def uint64 : IntegerRange UInt64 :=
  ⟨"u64", 0, UInt64.size - 1, fun n ↦ .ofNat n.toNat, fun x ↦ x.toNat⟩

def contains {α : Type} (r : IntegerRange α) (n : Int) : Bool := r.least ≤ n && n ≤ r.greatest

end IntegerRange

mutual

/-- A description of the documents that stand for values of a type. -/
inductive Shape : Type → Type 1 where
  | boolean : Shape Bool
  | integer {α : Type} (range : IntegerRange α) : Shape α
  | float32 : Shape Binary32
  | float64 : Shape Binary64
  | text : Shape String
  /-- A value that may be absent, which is written `null`. -/
  | optional {α : Type} (shape : Shape α) : Shape (Option α)
  | list {α : Type} (shape : Shape α) : Shape (List α)
  /-- An object with arbitrary keys, in the order in which they stand. -/
  | table {α : Type} (shape : Shape α) : Shape (Table String α)
  /-- An object whose keys are numbers, in whatever order. -/
  | numbered {α : Type} (shape : Shape α) : Shape (Numbered α)
  /-- An object with the given fields. -/
  | record {α ρ σ : Type} (name : String) (fields : Fields α ρ σ) (build : ρ → α) : Shape α
  /-- One of several tagged values. -/
  | choice {α : Type} (variants : Variants α) : Shape α
  /-- The end of an unrolled description. -/
  | tooDeep {α : Type} : Shape α

/-- The fields of a record, with the tuples of its parts and of its slots. -/
inductive Fields : Type → Type → Type → Type 1 where
  | done {α : Type} : Fields α Unit Unit
  | field {α β ρ σ : Type} (name : String) (shape : Shape β) (default : Option β) (get : α → β)
    (rest : Fields α ρ σ) : Fields α (β × ρ) (Option β × σ)

/-- The variants of a choice. -/
inductive Variants : Type → Type 1 where
  | done {α : Type} : Variants α
  /-- A tag that stands alone. -/
  | bare {α : Type} (tag : String) (value : α) (isValue : α → Bool) (rest : Variants α) : Variants α
  /-- A tag with a payload. -/
  | payload {α β : Type} (tag : String) (shape : Shape β) (inject : β → α)
    (project : α → Option β) (rest : Variants α) : Variants α

end

namespace Fields

variable {α ρ σ : Type}

/-- A field that every object has to have. -/
abbrev required {β : Type} (name : String) (shape : Shape β) (get : α → β)
    (rest : Fields α ρ σ) : Fields α (β × ρ) (Option β × σ) :=
  .field name shape none get rest

/-- A field that holds a default value where an object leaves it out. -/
abbrev defaulted {β : Type} (name : String) (shape : Shape β) (default : β) (get : α → β)
    (rest : Fields α ρ σ) : Fields α (β × ρ) (Option β × σ) :=
  .field name shape (some default) get rest

def count {α ρ σ : Type} : Fields α ρ σ → Nat
  | .done => 0
  | .field _ _ _ _ rest => rest.count + 1

/-- The slots before anything was read. -/
def emptySlots {α ρ σ : Type} : Fields α ρ σ → σ
  | .done => ()
  | .field _ _ _ _ rest => (none, rest.emptySlots)

/-- The parts of a record, given what stands in the slots: what was left out takes its default. -/
def fill {α ρ σ : Type} : Fields α ρ σ → σ → Except Cause ρ
  | .done, _ => .ok ()
  | .field name _ default _ rest, (slot, slots) =>
    match slot <|> default with
    | none => .error (.missingField name)
    | some b => do return (b, ← rest.fill slots)

end Fields

def Variants.tags {α : Type} : Variants α → List String
  | .done => []
  | .bare tag _ _ rest => tag :: rest.tags
  | .payload tag _ _ _ rest => tag :: rest.tags

/-- What a fault names where a document of the shape was expected. -/
def Shape.expectation {α : Type} : Shape α → String
  | .boolean => "a boolean"
  | .integer range => range.name
  | .float32 => "f32"
  | .float64 => "f64"
  | .text => "a string"
  | .optional shape => shape.expectation
  | .list _ => "a sequence"
  | .table _ => "a map"
  | .numbered _ => "a map"
  | .record name _ _ => "struct " ++ name
  | .choice _ => "a variant"
  | .tooDeep => "a value"

end Json

end IdlLinker
