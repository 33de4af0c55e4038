import IdlLinker.Session
import IdlLinker.Text.Written

/-!
# Invocations

What a command line asks for. `translate` links the files of one or more graphs and prints their
modules as one JSON object; `check` says of each file whether it can be linked.

An invocation is plain data, and it is all that the rest of the program sees of a command line:
defaults have been filled in, and the options that make no sense for a command are gone. Both
commands have the same inputs, and neither has settings beyond its own `Action`. The settings can be
shown instead of being followed; their written form is an `Outline`, in which every setting has a
line, given or not.
-/

namespace IdlLinker.Command

open Text

/-- Which graphs to link, and how. -/
structure Inputs where
  /-- Paths, patterns for paths, or a hyphen for the standard input. -/
  patterns : List String
  /-- The directory that paths are made relative to. -/
  root? : Option String := none
  /-- How many files are linked side by side; none in particular if it is zero. -/
  jobs : Nat := 0
  /-- The files to link, if not all. -/
  files : List FileId := []
deriving DecidableEq, Repr

def Inputs.options (inputs : Inputs) : LinkOptions where
  root? := inputs.root?
  parallel := inputs.jobs ≠ 1
  files := inputs.files

/-- What to do with the graphs. -/
inductive Action where
  /-- Print the modules, into a file if one is named, on one line if asked for. -/
  | translate (out? : Option String) (compact : Bool)
  /-- Report which files fail. -/
  | check
deriving DecidableEq, Repr

/-- What a command line asks for. -/
structure Invocation where
  action : Action
  inputs : Inputs
  /-- Whether to log more than warnings. -/
  verbose : Bool := false
  /-- Whether to show the settings and do nothing else. -/
  noOp : Bool := false
deriving DecidableEq, Repr

namespace Inputs

/-- The settings of the inputs in writing. -/
def outline (inputs : Inputs) : Outline :=
  .record "InputSettings"
    [("input", .list (inputs.patterns.map fun s ↦ .word (quoted s))),
      ("src_root", .option (inputs.root?.map fun s ↦ .word (quoted s))),
      ("jobs", .word (toString inputs.jobs)),
      ("files", .list (inputs.files.map fun s ↦ .word (quoted s)))]

end Inputs

namespace Invocation

/-- The settings of a command in writing. -/
def outline (i : Invocation) : Outline :=
  .record "CommandLineInterface"
    [("verbose", .bool i.verbose),
      ("cmd",
        match i.action with
        | .translate out? compact =>
          .wrapped "Translate" (.record "TranslateOut"
            [("input_settings", i.inputs.outline),
              ("out", .option (out?.map fun s ↦ .word (quoted s))),
              ("compact", .bool compact), ("no_op", .bool i.noOp)])
        | .check =>
          .wrapped "Check" (.record "CheckOut"
            [("input_settings", i.inputs.outline), ("no_op", .bool i.noOp)]))]

/-- The written form of the settings. -/
def describe (i : Invocation) : String := i.outline.render ""

end Invocation

end IdlLinker.Command
