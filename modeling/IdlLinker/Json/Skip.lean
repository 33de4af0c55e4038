import IdlLinker.Json.Scanner

/-!
# Passing over a value

The members that a shape does not know are passed over. What stands there has to be JSON, but it is
not looked at otherwise: nesting is not limited, and neither the encoding of strings nor the pairing
of surrogates is checked. The open brackets are kept on a list, so that the depth of a value does
not matter.

There is no recursion over values here but a loop with three states: before a value, before a
member, and after a value. Each turn takes a byte at least, so the length of the input bounds the
turns, and a deeply nested document needs a long list but no deep stack. What the loop accepts is
said by a grammar of its own (`IsValue`), which is that of JSON up to what stands between quotes.
-/

namespace IdlLinker.Json.Reader

/-- A bracket that is still open. -/
inductive Bracket where
  | list
  | object
deriving DecidableEq, Repr

/-- The fault of a document that ends inside a bracket. -/
def Bracket.atEnd : Bracket → Cause
  | .list => .endInList
  | .object => .endInObject

mutual

/-- Passes over a value, and then over what is left in the open brackets. -/
def skipValue : Nat → List Bracket → Reader Unit
  | 0, _ => fail .endInValue
  | fuel + 1, stack => do
    match ← next with
    | none => fail .endInValue
    | some 'n' => advance; keyword ['u', 'l', 'l']; skipAfter fuel stack
    | some 't' => advance; keyword ['r', 'u', 'e']; skipAfter fuel stack
    | some 'f' => advance; keyword ['a', 'l', 's', 'e']; skipAfter fuel stack
    | some '"' => advance; skipString (← remaining); skipAfter fuel stack
    | some '[' =>
      advance
      match ← next with
      | none => fail .endInList
      | some ']' => advance; skipAfter fuel stack
      | some _ => skipValue fuel (.list :: stack)
    | some '\x7b' =>
      advance
      match ← next with
      | none => fail .endInObject
      | some '\x7d' => advance; skipAfter fuel stack
      | some _ => skipMember fuel (.object :: stack)
    | some c =>
      if c = '-' ∨ isDigit c then skipNumber; skipAfter fuel stack
      else fail .expectedValue

/-- Passes over a member, and then over what is left in the open brackets. -/
def skipMember : Nat → List Bracket → Reader Unit
  | 0, _ => fail .endInObject
  | fuel + 1, stack => do
    match ← next with
    | none => fail .endInObject
    | some '"' =>
      advance
      skipString (← remaining)
      colon
      skipValue fuel stack
    | some _ => fail .keyNotText

/-- Passes over what is left in the open brackets after a value. -/
def skipAfter : Nat → List Bracket → Reader Unit
  | _, [] => return ()
  | 0, bracket :: _ => fail bracket.atEnd
  | fuel + 1, bracket :: stack => do
    match bracket, ← next with
    | _, none => fail bracket.atEnd
    | .list, some ',' => advance; skipValue fuel (.list :: stack)
    | .list, some ']' => advance; skipAfter fuel stack
    | .list, some _ => fail .expectedListEnd
    | .object, some ',' => advance; skipMember fuel (.object :: stack)
    | .object, some '\x7d' => advance; skipAfter fuel stack
    | .object, some _ => fail .expectedObjectEnd

end

def skip : Reader Unit := do skipValue (← remaining) []

end IdlLinker.Json.Reader
