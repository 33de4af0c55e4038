import IdlLinker.Json.Value
import IdlLinker.Text.Written

/-!
# Faults of a JSON document

A document is read in one pass, and reading stops at its first fault. A `Fault` says what is wrong
and where: the path from the outermost value to the value, or to the object or list, in which
reading stopped.

## Main definitions

* `Cause` is what is wrong; `Cause.message` is its wording and `Cause.category` its kind.
* `Segment` is one step of a path; a step into a member whose key could not be read has no name.
* `Fault.pathText` is the written form of a path.
-/

namespace IdlLinker

open Decimal

/-- One step from a value into a part of it. -/
inductive Segment where
  /-- Into the member of an object, or into the payload of a tagged value. -/
  | member (key : String)
  /-- Into the item of a list. -/
  | item (index : Nat)
  /-- Into a member whose key could not be read. -/
  | unnamed
deriving DecidableEq, Repr

/-- What stands in the document in the place of something else. -/
inductive Found where
  | null
  | boolean (b : Bool)
  | integer (n : Int)
  | float (x : Binary64)
  | text (s : String)
  | list
  | object
  /-- The name of a tagged value without the payload that it needs. -/
  | bareTag
deriving DecidableEq, Repr

/-- How a fault names what it found. -/
def Found.describe : Found → String
  | .null => "null"
  | .boolean b => "boolean `" ++ (if b then "true" else "false") ++ "`"
  | .integer n => "integer `" ++ toString n ++ "`"
  | .float x => "floating point `" ++ Json.layout64.text x ++ "`"
  | .text s => "string " ++ Text.quoted s
  | .list => "sequence"
  | .object => "map"
  | .bareTag => "unit variant"

/-- What is wrong with a document. -/
inductive Cause where
  | endInValue
  | endInString
  | endInList
  | endInObject
  | expectedValue
  | expectedKeyword
  | expectedColon
  | expectedListEnd
  | expectedObjectEnd
  | expectedQuote
  | keyNotText
  | keyNotNumber
  | trailingComma
  | trailingItems
  | invalidNumber
  | numberOutOfRange
  | invalidEscape
  | loneSurrogate
  | unfinishedSurrogate
  | invalidEncoding
  | controlCharacter
  | tooDeep
  | missingField (name : String)
  | duplicateField (name : String)
  | unknownVariant (name : String) (known : List String)
  | wrongType (found : Found) (expected : String)
  | integerOutOfRange (n : Int) (expected : String)
  | wrongLength (count : Nat) (record : String) (fields : Nat)
deriving DecidableEq, Repr

/-- The kinds of causes. -/
inductive Category where
  /-- The document ends too early. -/
  | ended
  /-- The document is not JSON, or not in a form that is accepted. -/
  | malformed
  /-- The document is JSON, but not of the expected shape. -/
  | shape
deriving DecidableEq, Repr

namespace Cause

def category : Cause → Category
  | .endInValue | .endInString | .endInList | .endInObject => .ended
  | .missingField _ | .duplicateField _ | .unknownVariant .. | .wrongType .. | .integerOutOfRange ..
  | .wrongLength .. => .shape
  | _ => .malformed

/-- The names that were expected, in words. -/
def alternatives (known : List String) : String :=
  match known.map fun name ↦ "`" ++ name ++ "`" with
  | [] => "there are no variants"
  | [a] => "expected " ++ a
  | [a, b] => "expected " ++ a ++ " or " ++ b
  | names => "expected one of " ++ String.intercalate ", " names

def message : Cause → String
  | .endInValue => "EOF while parsing a value"
  | .endInString => "EOF while parsing a string"
  | .endInList => "EOF while parsing a list"
  | .endInObject => "EOF while parsing an object"
  | .expectedValue => "expected value"
  | .expectedKeyword => "expected ident"
  | .expectedColon => "expected `:`"
  | .expectedListEnd => "expected `,` or `]`"
  | .expectedObjectEnd => "expected `,` or `\x7d`"
  | .expectedQuote => "expected `\"`"
  | .keyNotText => "key must be a string"
  | .keyNotNumber => "invalid value: expected key to be a number in quotes"
  | .trailingComma => "trailing comma"
  | .trailingItems => "trailing characters"
  | .invalidNumber => "invalid number"
  | .numberOutOfRange => "number out of range"
  | .invalidEscape => "invalid escape"
  | .loneSurrogate => "lone leading surrogate in hex escape"
  | .unfinishedSurrogate => "unexpected end of hex escape"
  | .invalidEncoding => "invalid unicode code point"
  | .controlCharacter => "control character (\\u0000-\\u001F) found while parsing a string"
  | .tooDeep => "recursion limit exceeded"
  | .missingField name => "missing field `" ++ name ++ "`"
  | .duplicateField name => "duplicate field `" ++ name ++ "`"
  | .unknownVariant name known => "unknown variant `" ++ name ++ "`, " ++ alternatives known
  | .wrongType found expected =>
    "invalid type: " ++ found.describe ++ ", expected " ++ expected
  | .integerOutOfRange n expected =>
    "invalid value: integer `" ++ toString n ++ "`, expected " ++ expected
  | .wrongLength count record fields =>
    "invalid length " ++ toString count ++ ", expected struct " ++ record ++ " with " ++
      toString fields ++ (if fields = 1 then " element" else " elements")

end Cause

/-- Why a document cannot be read, and where. -/
structure Fault where
  /-- The steps from the outermost value inwards. -/
  path : List Segment
  /-- What is wrong there. -/
  cause : Cause
deriving DecidableEq, Repr

namespace Fault

/-- The fault seen from one step further out. -/
def under (segment : Segment) (fault : Fault) : Fault := ⟨segment :: fault.path, fault.cause⟩

/-- The steps of a path, each with a point before it unless it comes first or goes into a list. -/
def steps (first : Bool) : List Segment → String
  | [] => ""
  | .item i :: rest => "[" ++ toString i ++ "]" ++ steps false rest
  | .member key :: rest => (if first then "" else ".") ++ key ++ steps false rest
  | .unnamed :: rest => (if first then "?" else ".?") ++ steps false rest

/-- The written form of a path; a single point when there are no steps. -/
def pathText (fault : Fault) : String :=
  if fault.path.isEmpty then "." else steps true fault.path

end Fault

end IdlLinker
