import IdlLinker.Json.Shape
import IdlLinker.Json.Skip

/-!
# Reading by shape

A record is read from an object, whose members come in any order, or from a list of its parts in
the order of the fields. A tagged value is read from an object with the tag for its only key, or,
when the tag needs no payload, from the tag alone.

The reader stops at the first fault of the document, whether the text is not JSON or the value is
not of the shape. What follows the first complete value is not looked at.

Nesting is counted down from a limit. Each list or object that is entered takes one off, and at zero
the reader gives up, whatever the shape: the recursion over shapes ends by itself, but a type
expression is unrolled deeper than any document may be. Values that are passed over are not counted.
-/

namespace IdlLinker.Json

open Decimal Reader

/-- How many lists and objects may be open at once, less one. -/
def nestingLimit : Nat := 128

namespace Reader

variable {α : Type}

/-- Goes into a list or an object, and gives the nesting that is left there. -/
def enter (depth : Nat) : Reader Nat :=
  if depth ≤ 1 then fail .tooDeep
  else do
    advance
    return depth - 1

/-- Stops at a value that is not of the expected shape; `c` is its first character. A value that is
malformed in itself is reported as such. -/
def mismatch (expected : String) (c : Char) : Reader α := do
  match c with
  | 'n' => advance; keyword ['u', 'l', 'l']; fail (.wrongType .null expected)
  | 't' => advance; keyword ['r', 'u', 'e']; fail (.wrongType (.boolean true) expected)
  | 'f' => advance; keyword ['a', 'l', 's', 'e']; fail (.wrongType (.boolean false) expected)
  | '"' => advance; fail (.wrongType (.text (← string)) expected)
  | '[' => fail (.wrongType .list expected)
  | '\x7b' => fail (.wrongType .object expected)
  | c =>
    if c = '-' ∨ isDigit c then
      match ← number with
      | .integer n => fail (.wrongType (.integer n) expected)
      | .float x => fail (.wrongType (.float x) expected)
    else fail .expectedValue

/-- The first character of the next value. -/
def start : Reader Char := do
  match ← next with
  | none => fail .endInValue
  | some c => return c

/-- Reads a number where one is expected. -/
def expectNumber (expected : String) : Reader Number := do
  let c ← start
  if c = '-' ∨ isDigit c then number else mismatch expected c

def inRange (range : IntegerRange α) (n : Int) : Reader α :=
  if range.contains n then return range.ofInt n else fail (.integerOutOfRange n range.name)

def integer (range : IntegerRange α) : Reader α := do
  match ← expectNumber range.name with
  | .integer n => inRange range n
  | .float x => fail (.wrongType (.float x) range.name)

/-- Reads a floating point number; an integer goes to the nearest number of the format, and a
number with point or exponent is first read in sixty-four bits. -/
def floating (f : Format) (expected : String) : Reader (Binary f) := do
  match ← expectNumber expected with
  | .integer n => return .ofInt n
  | .float x => return x.convert f

def boolean (expected : String) : Reader Bool := do
  match ← start with
  | 't' => advance; keyword ['r', 'u', 'e']; return true
  | 'f' => advance; keyword ['a', 'l', 's', 'e']; return false
  | c => mismatch expected c

def text (expected : String) : Reader String := do
  let c ← start
  if c = '"' then advance; string else mismatch expected c

def null (expected : String) : Reader Unit := do
  let c ← start
  if c = 'n' then advance; keyword ['u', 'l', 'l'] else mismatch expected c

/-- Reads a number that serves as a key, after the opening quote: an integer of any size. The
closing quote is left, for the number is known before the key has ended. -/
def numberKey (expected : String) : Reader Int := do
  match ← peek with
  | none => fail .keyNotNumber
  | some c =>
    if c = '-' ∨ isDigit c then
      match ← number with
      | .float x => fail (.wrongType (.float x) expected)
      | .integer n => return n
    else fail .keyNotNumber

/-- Reads the tag of a tagged value, after the opening brace. -/
def tagKey : Reader String := do
  match ← next with
  | none => fail .endInObject
  | some '"' => advance; string
  | some '\x7d' => fail .expectedValue
  | some _ => fail .keyNotText

/-- Takes the end of an object that has only one member. -/
def closeTagged : Reader Unit := do
  match ← next with
  | none => fail .endInObject
  | some '\x7d' => advance
  | some _ => fail .expectedValue

end Reader

mutual

/-- Reads a value of a shape; `depth` is the nesting that is left. -/
def Shape.read {α : Type} : Shape α → Nat → Reader α
  | .boolean, _ => Reader.boolean "a boolean"
  | .integer range, _ => Reader.integer range
  | .float32, _ => floating .single "f32"
  | .float64, _ => floating .double "f64"
  | .text, _ => Reader.text "a string"
  | .optional shape, depth => do
    if (← start) = 'n' then advance; keyword ['u', 'l', 'l']; return none
    else return some (← shape.read depth)
  | .list shape, depth => do
    let c ← start
    if c = '[' then
      let depth ← enter depth
      items (shape.read depth) (← remaining) 0 []
    else mismatch "a sequence" c
  | .table shape, depth => do
    let c ← start
    if c = '\x7b' then
      let depth ← enter depth
      let step (key : String) (t : Table String _) : Reader (Table String _) := do
        colon
        return t.insert key (← inside (.member key) (shape.read depth))
      members string step (← remaining) true .empty
    else mismatch "a map" c
  | .numbered shape, depth => do
    let c ← start
    if c = '\x7b' then
      let depth ← enter depth
      let step (key : Int) (es : Numbered _) : Reader (Numbered _) := do
        let segment := Segment.member (toString key)
        let k ← inside segment do
          let k ← inRange .uint32 key
          if ← take? '"' then return k else fail .expectedQuote
        colon
        return es.insert k (← inside segment (shape.read depth))
      members (numberKey "u32") step (← remaining) true .empty
    else mismatch "a map" c
  | .record name fields build, depth => do
    let c ← start
    if c = '\x7b' then
      let depth ← enter depth
      let slots ← members string (fields.readMember depth) (← remaining) true fields.emptySlots
      match fields.fill slots with
      | .error cause => fail cause
      | .ok parts => return build parts
    else if c = '[' then
      let depth ← enter depth
      let parts ← fields.readItems name fields.count depth 0
      closeList
      return build parts
    else mismatch ("struct " ++ name) c
  | .choice variants, depth => do
    let c ← start
    if c = '\x7b' then
      let depth ← enter depth
      let tag ← tagKey
      let a ← variants.readTagged variants.tags depth tag
      closeTagged
      return a
    else if c = '"' then
      advance
      variants.readBare variants.tags (← string)
    else fail .expectedValue
  | .tooDeep, _ => fail .tooDeep

/-- Reads the rest of a member after its key into the slot of its field; an unknown member is
passed over. -/
def Fields.readMember {α ρ σ : Type} : Fields α ρ σ → Nat → String → σ → Reader σ
  | .done, _, key, slots => do
    colon
    inside (.member key) skip
    return slots
  | .field name shape _ _ rest, depth, key, (slot, slots) => do
    if key = name then
      if slot.isSome then fail (.duplicateField name)
      else
        colon
        return (some (← inside (.member key) (shape.read depth)), slots)
    else return (slot, ← rest.readMember depth key slots)

/-- Reads the parts of a record from a list, from the part at `index` on. -/
def Fields.readItems {α ρ σ : Type} : Fields α ρ σ → String → Nat → Nat → Nat → Reader ρ
  | .done, _, _, _, _ => return ()
  | .field _ shape default _ rest, name, count, depth, index => do
    let b ←
      if ← nextItem (index = 0) then inside (.item index) (shape.read depth)
      else
        match default with
        | some b => return (b, ← rest.readItems name count depth (index + 1))
        | none => fail (.wrongLength index name count)
    return (b, ← rest.readItems name count depth (index + 1))

/-- Reads the payload of a tag, from the colon after the tag on. -/
def Variants.readTagged {α : Type} : Variants α → List String → Nat → String → Reader α
  | .done, known, _, tag => fail (.unknownVariant tag known)
  | .bare tag' value _ rest, known, depth, tag => do
    if tag = tag' then
      colon
      inside (.member tag) (Reader.null "unit")
      return value
    else rest.readTagged known depth tag
  | .payload tag' shape inject _ rest, known, depth, tag => do
    if tag = tag' then
      colon
      return inject (← inside (.member tag) (shape.read depth))
    else rest.readTagged known depth tag

/-- The value of a tag that stands alone. -/
def Variants.readBare {α : Type} : Variants α → List String → String → Reader α
  | .done, known, tag => fail (.unknownVariant tag known)
  | .bare tag' value _ rest, known, tag =>
    if tag = tag' then return value else rest.readBare known tag
  | .payload tag' _ _ _ rest, known, tag =>
    if tag = tag' then inside (.member tag) (fail (.wrongType .bareTag "newtype variant"))
    else rest.readBare known tag

end

/-- Reads the first value of a document. -/
def Shape.load {α : Type} (shape : Shape α) (bytes : List UInt8) : Except Fault α :=
  (shape.read nestingLimit bytes).map Prod.fst

end IdlLinker.Json
