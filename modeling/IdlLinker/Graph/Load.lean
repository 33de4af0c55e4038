import IdlLinker.Graph.Shapes
import IdlLinker.Json.Shape.Reader
import IdlLinker.Json.Shape.Writer

/-!
# Loading

A graph, or any part of one, is loaded from text, from bytes, or from what a source gave until it
ended or failed. A source is drained before anything is read, so its failure comes before every
fault of the document.

A load error keeps apart what the source and what the document is to blame for. The second kind has
two wordings, the fault with its path and the fault alone, and a chain of causes shows both.

There is one function for each source, and they differ in nothing but the way to the bytes. None of
them looks at what comes after the first value.
-/

namespace IdlLinker

open Json

/-- Why nothing was loaded. -/
inductive LoadError where
  /-- The source failed. -/
  | unreadable (reason : String)
  /-- The document is not one of the expected shape. -/
  | faulty (fault : Fault)
deriving DecidableEq, Repr

namespace LoadError

def message : LoadError → String
  | .unreadable reason => reason
  | .faulty fault => "at JSON path " ++ fault.pathText ++ " → " ++ fault.cause.message

/-- The wordings of a load error and of what caused it, the outermost first. -/
def chain (e : LoadError) : List String :=
  match e with
  | .unreadable reason => [reason]
  | .faulty fault => [e.message, fault.cause.message]

end LoadError

namespace Json.Shape

variable {α : Type}

def loadBytes (shape : Shape α) (bytes : List UInt8) : Except LoadError α :=
  (shape.load bytes).mapError .faulty

def loadText (shape : Shape α) (text : String) : Except LoadError α :=
  shape.loadBytes text.toUTF8.toList

/-- Loads a value from a source that was drained: its bytes, or the reason of its failure. -/
def loadDrained (shape : Shape α) (drained : Except String (List UInt8)) : Except LoadError α := do
  shape.loadBytes (← drained.mapError .unreadable)

end Json.Shape

end IdlLinker
