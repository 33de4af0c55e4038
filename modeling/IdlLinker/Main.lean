import IdlLinker.Command.Run

/-!
# The program

The command line on the files of the machine. Everything it decides is in `Command.runWith`; here
files are read and written, and the texts it leaves behind are printed.

Two records stand between the machine and the command line: `Machine.files`, and `Machine.workers`
for what links files side by side. A failure of the machine becomes a `FileFault` on the way, so
that a command can tell a missing file from one that cannot be read. Nothing is decided in this
module, and so nothing is proved about it.
-/

namespace IdlLinker.Machine

/-- The file fault that a failure of the machine comes to. -/
def faultOf : IO.Error → FileFault
  | .noFileOrDirectory .. => .missing
  | .alreadyExists .. => .alreadyThere
  | .inappropriateType path? code reason =>
    -- Some failures come with the negative of the number of their cause.
    if code = 20 ∨ code = 0 - 20 then .notFolder
    else if code = 21 ∨ code = 0 - 21 then .isFolder
    else .other (toString (IO.Error.inappropriateType path? code reason))
  | e => .other (toString e)

/-- Catches a failure of the machine. -/
def attempt {α : Type} (act : IO α) : IO (Except FileFault α) := do
  try return .ok (← act) catch e => return .error (faultOf e)

/-- A path as an entry of a listing, of which it is the folder. -/
def entry (path : String) : IO.FS.DirEntry := ⟨path, ""⟩

def readText (path : String) : IO (Except FileFault String) := do
  return (← attempt (IO.FS.readBinFile path)).bind fun bytes ↦
    match String.fromUTF8? bytes with
    | some text => .ok text
    | none => .error (.other "stream did not contain valid UTF-8")

/-- Access to the files of the machine. -/
def files : Files IO where
  kind? path := do
    match ← attempt (entry path).root.metadata with
    | .error _ => return none
    | .ok found => return some (if found.type == .dir then .folder else .file)
  list path := do
    return (← attempt (entry path).root.readDir).map fun found ↦ found.toList.map (·.fileName)
  read := readText
  makeFolder path := attempt (IO.FS.createDir path)
  write path text := attempt (IO.FS.writeFile path text)
  input := do
    try return .ok (← (← IO.getStdin).readBinToEnd).toList
    catch e => return .error (toString e)

/-- Nothing has to be started before files are linked side by side. -/
def workers : Command.Workers IO := fun _ ↦ return .ok ()

end IdlLinker.Machine

open IdlLinker in
/-- Runs the command line; the log filter may be written into an environment variable. -/
def main (arguments : List String) : IO UInt32 := do
  let outcome ←
    Command.runWith Machine.files Machine.workers (← IO.getEnv "IDL_LINKER_LOG") arguments
  (← IO.getStderr).putStr outcome.stderr
  (← IO.getStdout).putStr outcome.stdout
  return UInt32.ofNat outcome.exit
