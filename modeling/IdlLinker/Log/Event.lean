import IdlLinker.Text.Written

/-!
# Log events

What happened along the way, for whoever asks. An event is data until it is printed: its level, the
part of the program that it comes from, a message, and named fields in order.

Which events are shown is decided by a filter, after the fact. So what a command does cannot depend
on what is logged, and an event that nobody wants to see costs its place in a list and nothing else.
The time of an event is not part of it.
-/

namespace IdlLinker.Log

/-- How important an event is. -/
inductive Level where
  | error
  | warn
  | info
  | debug
  | trace
deriving DecidableEq, Repr

namespace Level

/-- The rank of a level: the higher, the less important. -/
def rank : Level → Nat
  | .error => 1
  | .warn => 2
  | .info => 3
  | .debug => 4
  | .trace => 5

def name : Level → String
  | .error => "ERROR"
  | .warn => "WARN"
  | .info => "INFO"
  | .debug => "DEBUG"
  | .trace => "TRACE"

end Level

/-- The value of a field of an event. -/
inductive FieldValue where
  /-- Text that stands as it is. -/
  | plain (s : String)
  /-- Text that is quoted. -/
  | quoted (s : String)
deriving DecidableEq, Repr

def FieldValue.text : FieldValue → String
  | .plain s => s
  | .quoted s => Text.quoted s

/-- Something that happened. -/
structure Event where
  level : Level
  /-- The part of the program that the event comes from. -/
  target : String
  message : String
  fields : List (String × FieldValue)
deriving DecidableEq, Repr

namespace Event

/-- Whether an event has a field; the message is one. -/
def hasField (e : Event) (name : String) : Bool :=
  name = "message" || e.fields.any (·.1 = name)

def line (e : Event) : String :=
  e.level.name ++ " " ++ e.target ++ ": " ++ e.message ++
    String.join (e.fields.map fun field ↦ " " ++ field.1 ++ "=" ++ field.2.text)

end Event

def number (name : String) (n : Nat) : String × FieldValue := (name, .plain (toString n))

end IdlLinker.Log
