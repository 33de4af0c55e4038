import IdlLinker.Json.Shape

/-!
# Writing by shape

The document of a value has every field of every record, in the order of the fields.

The writer and the reader follow one description, so there is no second list of fields that could
fall behind the first. What a reader does without is written all the same: whoever looks at a
document finds every field in its place, and two documents of one value differ in their blanks only.

A tagged value is written by the first variant that it belongs to. In the format of graphs it
belongs to no other (`Variants.Sound`), but nothing here depends on that.
-/

namespace IdlLinker.Json

mutual

def Shape.write {α : Type} : Shape α → α → Json
  | .boolean, b => .bool b
  | .integer range, n => .int (range.toInt n)
  | .float32, x => .float32 x
  | .float64, x => .float64 x
  | .text, s => .text s
  | .optional _, none => .null
  | .optional shape, some a => shape.write a
  | .list shape, as => .list (as.map shape.write)
  | .table shape, t => .object (t.entries.map fun e ↦ (e.1, shape.write e.2))
  | .numbered shape, es => .object (es.entries.map fun e ↦ (toString e.1, shape.write e.2))
  | .record _ fields _, a => .object (fields.write a)
  | .choice variants, a => variants.write a
  | .tooDeep, _ => .null

/-- The members of a record. -/
def Fields.write {α ρ σ : Type} : Fields α ρ σ → α → List (String × Json)
  | .done, _ => []
  | .field name shape _ get rest, a => (name, shape.write (get a)) :: rest.write a

/-- A tagged value: the first variant that it belongs to. -/
def Variants.write {α : Type} : Variants α → α → Json
  | .done, _ => .null
  | .bare tag _ isValue rest, a => if isValue a then .text tag else rest.write a
  | .payload tag shape _ project rest, a =>
    match project a with
    | some b => .object [(tag, shape.write b)]
    | none => rest.write a

end

end IdlLinker.Json
