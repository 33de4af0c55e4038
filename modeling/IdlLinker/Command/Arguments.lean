import IdlLinker.Command.Invocation
import IdlLinker.Text.Written

/-!
# Arguments

A command line names a command and then its options, in any order. An option has a long name, and
some have a letter too; letters may be run together, and a value may be attached to either form or
follow it. Whatever begins with a hyphen is an option, except for the hyphen alone.

An option that takes several values takes all that follow; an attached value is the only one. The
values that follow an option belong to it, so `Uses.ofItems` collects the items of a command line
from the last to the first, and each option finds its values before it.
-/

namespace IdlLinker.Command

/-- The options of the commands. -/
inductive Switch where
  | input
  | root
  | jobs
  | file
  | out
  | compact
  | noOp
  | verbose
  | help
deriving DecidableEq, Repr

/-- How many values an option takes. -/
inductive Arity where
  | nothing
  | one
  | several
deriving DecidableEq, Repr

namespace Switch

def longName : Switch → String
  | .input => "input"
  | .root => "src-root"
  | .jobs => "jobs"
  | .file => "file"
  | .out => "out"
  | .compact => "compact"
  | .noOp => "no-op"
  | .verbose => "verbose"
  | .help => "help"

/-- The letter of an option, if it has one. -/
def letter? : Switch → Option Char
  | .input => some 'i'
  | .jobs => some 'j'
  | .out => some 'o'
  | .verbose => some 'v'
  | .help => some 'h'
  | _ => none

def arity : Switch → Arity
  | .input => .several
  | .root | .jobs | .file | .out => .one
  | .compact | .noOp | .verbose | .help => .nothing

/-- Whether an option may be given more than once. -/
def isRepeatable : Switch → Bool
  | .input | .file => true
  | _ => false

end Switch

/-- Why a command line cannot be read. -/
inductive UsageError where
  | missingCommand
  | missingInput
  | unknown (argument : String)
  | unexpected (argument : String)
  | missingValue (switch : Switch)
  | repeated (switch : Switch)
  | invalid (switch : Switch) (value : String)
deriving DecidableEq, Repr

def UsageError.message : UsageError → String
  | .missingCommand => "a command is missing"
  | .missingInput => "no input is given"
  | .unknown argument => "`" ++ argument ++ "` is not known"
  | .unexpected argument => "`" ++ argument ++ "` is one argument too many"
  | .missingValue switch => "--" ++ switch.longName ++ " needs a value"
  | .repeated switch => "--" ++ switch.longName ++ " is given more than once"
  | .invalid switch value => "--" ++ switch.longName ++ " cannot be `" ++ value ++ "`"

/-! ## Words and items -/

/-- The form of an argument. -/
inductive Word where
  | value (s : String)
  /-- Two hyphens: no option comes after them. -/
  | terminator
  | long (name : String) (value? : Option String)
  | letters (cs : List Char)
deriving DecidableEq, Repr

def Word.ofArgument (argument : String) : Word :=
  match argument.toList with
  | ['-', '-'] => .terminator
  | '-' :: '-' :: cs =>
    let name := String.ofList (cs.takeWhile (· ≠ '='))
    match cs.dropWhile (· ≠ '=') with
    | [] => .long name none
    | _ :: attached => .long name (some (String.ofList attached))
  | '-' :: c :: cs => .letters (c :: cs)
  | _ => .value argument

/-- A part of a command line. -/
inductive Item where
  | value (s : String)
  | terminator
  | switch (s : Switch)
  /-- An option with the value that is attached to it. -/
  | attached (s : Switch) (value : String)
deriving DecidableEq, Repr

namespace Item

/-- The items of letters that are run together: what follows the letter of an option with a value is
the value. -/
def ofLetters (known : List Switch) : List Char → Except UsageError (List Item)
  | [] => .ok []
  | c :: rest =>
    match known.find? fun s ↦ s.letter? = some c with
    | none => .error (.unknown (String.ofList ['-', c]))
    | some s =>
      if s.arity = .nothing then do return .switch s :: (← ofLetters known rest)
      else
        match rest with
        | [] => .ok [.switch s]
        | '=' :: v | v => .ok [.attached s (String.ofList v)]

/-- The items of an argument. -/
def ofArgument (known : List Switch) (argument : String) : Except UsageError (List Item) :=
  match Word.ofArgument argument with
  | .value s => .ok [.value s]
  | .terminator => .ok [.terminator]
  | .letters cs => ofLetters known cs
  | .long name value? =>
    match known.find? fun s ↦ s.longName = name, value? with
    | none, _ => .error (.unknown argument)
    | some s, none => .ok [.switch s]
    | some s, some v =>
      if s.arity = .nothing then .error (.unexpected argument) else .ok [.attached s v]

end Item

/-! ## Uses -/

/-- The options that are used, each with its values. -/
abbrev Uses := List (Switch × List String)

namespace Uses

/-- The values at the beginning of a command line, and the options after them. -/
def ofItems : List Item → Except UsageError (List String × Uses)
  | [] => .ok ([], [])
  | item :: rest => do
    let (values, uses) ← ofItems rest
    match item, values with
    | .value s, _ => return (s :: values, uses)
    | .terminator, _ =>
      if rest.isEmpty then return (values, uses) else throw (.unexpected "--")
    | .attached s value, [] => return ([], (s, [value]) :: uses)
    | .attached _ _, v :: _ => throw (.unexpected v)
    | .switch s, _ =>
      match s.arity, values with
      | .nothing, [] => return ([], (s, []) :: uses)
      | .nothing, v :: _ => throw (.unexpected v)
      | .one, [v] => return ([], (s, [v]) :: uses)
      | .one, _ :: v :: _ => throw (.unexpected v)
      | .several, v :: vs => return ([], (s, v :: vs) :: uses)
      | _, [] => throw (.missingValue s)

/-- The options that a list of arguments uses. -/
def ofArguments (known : List Switch) (arguments : List String) : Except UsageError Uses := do
  let items ← arguments.mapM (Item.ofArgument known)
  match ← ofItems items.flatten with
  | (v :: _, _) => throw (.unexpected v)
  | ([], uses) =>
    match known.find? fun s ↦ !s.isRepeatable && 1 < (uses.filter (·.1 = s)).length with
    | some s => throw (.repeated s)
    | none => return uses

def has (uses : Uses) (s : Switch) : Bool := uses.any (·.1 = s)

def values (uses : Uses) (s : Switch) : List String := (uses.filter (·.1 = s)).flatMap Prod.snd

/-- The path that is the value of an option, if the option is used. -/
def path? (uses : Uses) (s : Switch) : Except UsageError (Option String) :=
  match (uses.values s).head? with
  | some "" => .error (.invalid s "")
  | path? => .ok path?

/-- The number that is the value of an option; zero if the option is not used. -/
def count (uses : Uses) (s : Switch) : Except UsageError Nat :=
  match (uses.values s).head? with
  | none => .ok 0
  | some value =>
    match Text.natural? value with
    | some n => if n < Nat.pow 2 64 then .ok n else .error (.invalid s value)
    | none => .error (.invalid s value)

end Uses

/-! ## Command lines -/

/-- What a command line wants. -/
inductive Request where
  | help
  | version
  | run (i : Invocation)
deriving DecidableEq, Repr

namespace Request

/-- The options of both commands. -/
def sharedSwitches : List Switch := [.input, .root, .jobs, .file, .noOp, .verbose, .help]

/-- Reads the options of a command. -/
def ofUses (verbose : Bool) (action : Uses → Except UsageError Action) (uses : Uses) :
    Except UsageError Request := do
  if uses.has .help then return .help
  if !uses.has .input then throw .missingInput
  return .run
    { action := ← action uses
      inputs :=
        { patterns := uses.values .input
          root? := ← uses.path? .root
          jobs := ← uses.count .jobs
          files := uses.values .file }
      verbose := verbose || uses.has .verbose
      noOp := uses.has .noOp }

/-- Reads a command and its options. -/
def ofCommand (verbose : Bool) (name : String) (arguments : List String) :
    Except UsageError Request := do
  match name with
  | "translate" =>
    ofUses verbose (fun uses ↦ do return .translate (← uses.path? .out) (uses.has .compact))
      (← Uses.ofArguments (.out :: .compact :: sharedSwitches) arguments)
  | "check" =>
    ofUses verbose (fun _ ↦ return .check) (← Uses.ofArguments sharedSwitches arguments)
  | "help" => return .help
  | name => throw (.unknown name)

/-- Reads letters before the command: a request that they stand for by themselves, or whether one of
them asks for more logging. -/
def ofLetters (verbose : Bool) : List Char → Except UsageError (Request ⊕ Bool)
  | [] => .ok (.inr verbose)
  | 'v' :: rest => if verbose then .error (.repeated .verbose) else ofLetters true rest
  | 'V' :: _ => .ok (.inl .version)
  | 'h' :: _ => .ok (.inl .help)
  | c :: _ => .error (.unknown (String.ofList ['-', c]))

/-- Reads a command line from the first argument that has not been read; `verbose` says whether one
before it asked for more logging. -/
def ofRest (verbose : Bool) : List String → Except UsageError Request
  | [] => .error .missingCommand
  | argument :: rest =>
    match Word.ofArgument argument with
    | .value name => ofCommand verbose name rest
    | .long "verbose" none =>
      if verbose then .error (.repeated .verbose) else ofRest true rest
    | .long "version" none => .ok .version
    | .long "help" none => .ok .help
    | .letters cs => do
      match ← ofLetters verbose cs with
      | .inl request => return request
      | .inr verbose => ofRest verbose rest
    | .long _ _ => .error (.unknown argument)
    | .terminator => .error .missingCommand

/-- Reads a command line. -/
def ofArguments (arguments : List String) : Except UsageError Request := ofRest false arguments

end Request

end IdlLinker.Command
