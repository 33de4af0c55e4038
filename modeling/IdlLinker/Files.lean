import IdlLinker.Path

/-!
# Access to files

The command line reads and writes files through a `Files` record, so that what it does can be said
for any place that has files: the file system of the machine, or a `Directory`.

The record holds what a place has to be asked for: what stands at a path, what is in a folder, the
text of a file and of the standard input, and the two changes that are made, a new folder and a new
text. Each answer may be a fault, and the faults are those that a command tells apart; any other is
taken over in the words of the place. What is put together from these, such as making all the
folders that lead to a file, is defined here once for all places.
-/

namespace IdlLinker

/-- Why a file cannot be used. -/
inductive FileFault where
  | missing
  | alreadyThere
  | notFolder
  | isFolder
  /-- Anything else, in words. -/
  | other (reason : String)
deriving DecidableEq, Repr

def FileFault.message : FileFault → String
  | .missing => "No such file or directory (os error 2)"
  | .alreadyThere => "File exists (os error 17)"
  | .notFolder => "Not a directory (os error 20)"
  | .isFolder => "Is a directory (os error 21)"
  | .other reason => reason

/-- What can stand at a path. -/
inductive EntryKind where
  | file
  | folder
deriving DecidableEq, Repr

/-- A place that has files. -/
structure Files (m : Type → Type) where
  /-- What stands at a path, if anything does. -/
  kind? : String → m (Option EntryKind)
  /-- The names in a folder, in any order. -/
  list : String → m (Except FileFault (List String))
  /-- The text of a file. -/
  read : String → m (Except FileFault String)
  /-- Makes a folder in a folder that is there already. -/
  makeFolder : String → m (Except FileFault Unit)
  /-- Gives a file a new text; the file need not exist, the folder must. -/
  write : String → String → m (Except FileFault Unit)
  /-- What is left of the standard input, or why it cannot be read. -/
  input : m (Except String (List UInt8))

namespace Files

variable {m : Type → Type} [Monad m]

def isThere (files : Files m) (path : String) : m Bool := do
  return (← files.kind? path).isSome

def isFolder (files : Files m) (path : String) : m Bool := do
  return (← files.kind? path) = some .folder

/-- Passes over the failure to make a folder if one is there. -/
def settle (files : Files m) (path : String) (made : Except FileFault Unit) :
    m (Except FileFault Unit) := do
  match made with
  | .ok () => return .ok ()
  | .error fault => if ← files.isFolder path then return .ok () else return .error fault

/-- Makes a folder; where the folder that it stands in is missing, that one first. Each of these has
a shorter path, so `length` steps are enough for a path of less than this many characters. -/
def makeFoldersWithin (files : Files m) : Nat → String → m (Except FileFault Unit)
  | 0, _ => return .error .missing
  | length + 1, path => do
    if path = "" then return .ok ()
    match ← files.makeFolder path with
    | .error .missing =>
      match Path.parent? path with
      | none => return .error (.other "failed to create whole tree")
      | some parent =>
        match ← files.makeFoldersWithin length parent with
        | .error fault => return .error fault
        | .ok () => files.settle path (← files.makeFolder path)
    | made => files.settle path made

/-- Makes a folder and whatever it stands in, unless it is there. -/
def makeFolders (files : Files m) (path : String) : m (Except FileFault Unit) :=
  files.makeFoldersWithin (path.length + 1) path

end Files

end IdlLinker
