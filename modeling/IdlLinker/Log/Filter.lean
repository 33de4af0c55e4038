import IdlLinker.Log.Event
import IdlLinker.Text.Written

/-!
# Log filters

A filter says which events are shown. It is written as directives between commas: a level alone for
all events, `target` or `target=level` for those whose target begins so. A directive may also name a
field between brackets and braces, `target[{field}]=level`, and then means the events that have
it. Of the directives that an event falls under, the most specific one decides: the one with the
longest target, then one that names a field; a later directive takes the place of an earlier one
that means the same events. An event that falls under none is not shown.

What stands between the brackets may be the name of a span, too, or a field with a value that it has
in a span. The directive then means the events inside of such spans. There are none here, so it
shows nothing, but it is a directive all the same: only a filter without any shows the errors.
-/

namespace IdlLinker.Log

/-- How far down events are shown; `none` shows none. -/
abbrev Threshold := Option Level

namespace Threshold

/-- The thresholds by number. -/
def ofNat? : Nat → Option Threshold
  | 0 => some none
  | 1 => some (some .error)
  | 2 => some (some .warn)
  | 3 => some (some .info)
  | 4 => some (some .debug)
  | 5 => some (some .trace)
  | _ => none

/-- The threshold that a text stands for: a number, or a name in letters of either case. -/
def ofText? (s : String) : Option Threshold :=
  match Text.natural? s with
  | some n => ofNat? n
  | none =>
    match s.toLower with
    | "off" => some none
    | "error" => some (some .error)
    | "warn" => some (some .warn)
    | "info" => some (some .info)
    | "debug" => some (some .debug)
    | "trace" => some (some .trace)
    | _ => none

/-- Whether a level is shown. -/
def shows : Threshold → Level → Bool
  | none, _ => false
  | some threshold, level => level.rank ≤ threshold.rank

end Threshold

/-- Which of the events with a target a directive means. -/
inductive Scope where
  | all
  /-- Those that have a field. -/
  | having (field : String)
  /-- Those inside of some spans. -/
  | inSpans
deriving DecidableEq, Repr

/-- One directive of a filter. -/
structure Directive where
  /-- How the targets begin that are meant. -/
  target : String
  /-- Which of their events are meant. -/
  scope : Scope
  /-- How far down these events are shown. -/
  threshold : Threshold
deriving DecidableEq, Repr

namespace Directive

/-- Whether a directive may begin with a character. -/
def mayBegin (c : Char) : Bool :=
  c = '[' || c = '-' || c = ':' || c = '_' || c.isAlphanum || 128 ≤ c.toNat

/-- The threshold after the equals sign; without one everything is shown. -/
def threshold? : List Char → Option Threshold
  | ['='] => some (some .trace)
  | '=' :: level => Threshold.ofText? (String.ofList level)
  | cs => if cs.all Char.isWhitespace then some (some .trace) else none

/-- The scope that begins with an opening bracket, from the character after that, and what follows
its closing bracket. -/
def scope? (cs : List Char) : Option (Scope × List Char) :=
  let span := cs.takeWhile fun c ↦ c ≠ ']' && c ≠ '\x7b'
  match cs.drop span.length with
  | ']' :: rest => some (.inSpans, rest)
  | _ :: body =>
    let field := body.takeWhile (· ≠ '\x7d')
    match body.drop field.length with
    | '\x7d' :: ']' :: rest =>
      if field.isEmpty then none
      else if span.isEmpty && !field.contains '=' then some (.having (String.ofList field), rest)
      else some (.inSpans, rest)
    | _ => none
  | [] => none

/-- The directive that a text stands for, if it does for one. A word alone is a level if it can be,
else a target. Blanks belong to a word; after a blank there can be no level. -/
def ofText? (s : String) : Option Directive :=
  let cs := s.toList
  let body := cs.dropWhile Char.isWhitespace
  if body.head?.any mayBegin && (body.length = cs.length || !body.contains '=') then
    let target := String.ofList (cs.takeWhile fun c ↦ c ≠ '=' && c ≠ '[')
    match cs.dropWhile fun c ↦ c ≠ '=' && c ≠ '[' with
    | [] =>
      match Threshold.ofText? target with
      | some threshold => some ⟨"", .all, threshold⟩
      | none => some ⟨target, .all, some .trace⟩
    | '[' :: rest => do
      let (scope, rest) ← scope? rest
      return ⟨target, scope, ← threshold? rest⟩
    | rest => do return ⟨target, .all, ← threshold? rest⟩
  else none

/-- Whether an event falls under a directive. -/
def covers (d : Directive) (e : Event) : Bool :=
  d.target.toList.isPrefixOf e.target.toList &&
    match d.scope with
    | .all => true
    | .having field => e.hasField field
    | .inSpans => false

/-- Whether a directive gives way to another one, if an event falls under both. -/
def givesWayTo (d other : Directive) : Bool :=
  d.target.length < other.target.length ||
    d.target.length = other.target.length &&
      match d.scope, other.scope with
      | .having field, .having other => field ≤ other
      | .having _, _ => false
      | _, _ => true

end Directive

/-- The directives of a filter in the order in which they are written. -/
abbrev Filter := List Directive

namespace Filter

/-- Shows everything down to a level. -/
def downTo (level : Level) : Filter := [⟨"", .all, some level⟩]

/-- The filter that a text stands for, if each of its directives can be read. Empty places between
the commas do not count. -/
def ofText? (s : String) : Option Filter :=
  match (s.splitOn ",").filter (· ≠ "") with
  | [] => some (downTo .error)
  | pieces => pieces.mapM Directive.ofText?

/-- The filter without a written one: warnings, or, when more was asked for, everything of the
program down to debugging. -/
def standard (verbose : Bool) : Filter :=
  if verbose then [⟨"idl_translate", .all, some .debug⟩] else downTo .warn

/-- The written filter, or the standard one where none is written or it cannot be read. -/
def choose (written? : Option String) (verbose : Bool) : Filter :=
  (written?.bind ofText?).getD (standard verbose)

/-- The directive that decides about an event. -/
def decisive? (f : Filter) (e : Event) : Option Directive :=
  (f.filter (·.covers e)).foldl
    (fun best? d ↦ if best?.all (·.givesWayTo d) then some d else best?)
    none

/-- Whether an event is shown. -/
def shows (f : Filter) (e : Event) : Bool :=
  (f.decisive? e).any fun d ↦ d.threshold.shows e.level

end Filter

end IdlLinker.Log
