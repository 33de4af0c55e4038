import IdlLinker.Files
import IdlLinker.Path
import IdlLinker.Table

/-!
# Directories

A directory with everything in it, as a value. Paths are followed in it as they are written, piece
by piece: each piece needs a folder to stand in, so a path that goes on after a file leads nowhere
even if it goes on with nothing but a slash, and a step up from a folder that is not there is no
way either.

A path may leave the directory, upwards or by beginning at the root. What lies beyond is a folder
about which nothing is known; nothing is found in it.

A `Workspace` is a directory together with a standard input, and `Workspace.files` is the access to
it.
-/

namespace IdlLinker

/-- What stands under a name in a folder. -/
inductive Entry where
  | file (text : String)
  | folder (entries : Table String Entry)

namespace Entry

def emptyFolder : Entry := .folder .empty

/-- What is reached from an entry by names alone. -/
def at? : Entry → List String → Option Entry
  | e, [] => some e
  | .file _, _ :: _ => none
  | .folder entries, name :: rest =>
    match entries.find? name with
    | some e => e.at? rest
    | none => none

/-- Puts an entry where the names lead, with a folder for each name on the way that leads nowhere. A
file has nothing in it, so one that is on the way stays as it is. -/
def put (new : Entry) : List String → Entry → Entry
  | [], _ => new
  | _ :: _, .file text => .file text
  | name :: rest, .folder entries =>
    .folder (entries.insert name (put new rest ((entries.find? name).getD emptyFolder)))

mutual

/-- The texts of the files in an entry, each under its path; `path` is that of the entry. -/
def texts (path : String) : Entry → List (String × String)
  | .file text => [(path, text)]
  | .folder ⟨entries⟩ => textsOfEntries (if path = "" then "" else path ++ "/") entries

/-- The texts of the files in the entries of a folder; `start` begins each of their paths. -/
def textsOfEntries (start : String) : List (String × Entry) → List (String × String)
  | [] => []
  | (name, e) :: rest => e.texts (start ++ name) ++ textsOfEntries start rest

end

end Entry

/-- A folder with everything in it. -/
structure Directory where
  entries : Table String Entry := .empty

/-- Where a path leads. -/
inductive Place where
  /-- To what the names lead to, of which the last is first. -/
  | within (back : List String)
  /-- To a folder outside of the directory. -/
  | beyond

namespace Directory

/-- The directory as an entry. -/
def top (d : Directory) : Entry := .folder d.entries

/-- Puts an entry where the names lead. -/
def put (d : Directory) (new : Entry) (names : List String) : Directory :=
  match Entry.put new names d.top with
  | .folder entries => ⟨entries⟩
  | .file _ => d

/-- The pieces of a path between its slashes. -/
def pieces (path : String) : List String := (Path.pieces path.toList).map String.ofList

/-- The directory that holds the given texts, each under its path. -/
def ofTexts (texts : List (String × String)) : Directory :=
  texts.foldl (fun d e ↦ d.put (.file e.2) ((pieces e.1).filter fun p ↦ p ≠ "" && p ≠ ".")) {}

/-- The texts of all files, each under its path. -/
def texts (d : Directory) : List (String × String) := d.top.texts ""

/-- The texts that are not in an earlier state of the directory. -/
def textsSince (d earlier : Directory) : List (String × String) :=
  let old := earlier.texts
  d.texts.filter fun e ↦ !old.contains e

theorem textsSince_self (d : Directory) : d.textsSince d = [] := by
  simp [textsSince]

/-- What stands at a place. -/
def entryAt (d : Directory) : Place → Option Entry
  | .within back => d.top.at? back.reverse
  | .beyond => some .emptyFolder

/-! ## Following paths -/

/-- Goes on by one piece of a path. -/
def step (d : Directory) (place : Place) (piece : String) : Except FileFault Place :=
  match d.entryAt place with
  | none => .error .missing
  | some (.file _) => .error .notFolder
  | some (.folder entries) =>
    if piece = "" ∨ piece = "." then .ok place
    else if piece = ".." then
      match place with
      | .within (_ :: back) => .ok (.within back)
      | _ => .ok .beyond
    else
      match place with
      | .within back =>
        if (entries.find? piece).isSome then .ok (.within (piece :: back)) else .error .missing
      | .beyond => .error .missing

/-- Where the pieces of a path lead; a path with an empty first piece, and others after it, begins
at the root. -/
def follow (d : Directory) (rooted : Bool) (pieces : List String) : Except FileFault Place :=
  pieces.foldlM d.step (if rooted then .beyond else .within [])

/-- Whether a path begins at the root. -/
def isRooted (path : String) : Bool := path.toList.head? = some '/'

/-- What a path leads to. -/
def find (d : Directory) (path : String) : Except FileFault Entry := do
  if path = "" then throw .missing
  match d.entryAt (← d.follow (isRooted path) (pieces path)) with
  | some e => return e
  | none => throw .missing

/-- Where the last piece of a path stands, and that piece. Slashes after the last piece do not
count; it is empty if there is nothing but slashes. -/
def site (d : Directory) (path : String) : Except FileFault (Place × String) := do
  match (pieces path).reverse.dropWhile (· = "") with
  | [] => return (.beyond, "")
  | last :: back =>
    let place ← d.follow (isRooted path) back.reverse
    -- A further step fails unless a folder stands there.
    return (← d.step place "", last)

/-! ## Reading and writing -/

def kindOf : Entry → EntryKind
  | .file _ => .file
  | .folder _ => .folder

/-- What stands at a path, if anything does. -/
def kind? (d : Directory) (path : String) : Option EntryKind :=
  (d.find path).toOption.map kindOf

def list (d : Directory) (path : String) : Except FileFault (List String) := do
  match ← d.find path with
  | .file _ => throw .notFolder
  | .folder entries => return entries.keys

def read (d : Directory) (path : String) : Except FileFault String := do
  match ← d.find path with
  | .file text => return text
  | .folder _ => throw .isFolder

/-- Whether a last piece leads to a folder that is there already, whatever the directory holds. -/
def isStanding (piece : String) : Bool := piece = "" || piece = "." || piece = ".."

def makeFolder (d : Directory) (path : String) : Except FileFault Directory := do
  if path = "" then throw .missing
  let (place, name) ← d.site path
  if isStanding name then throw .alreadyThere
  match place with
  | .beyond => throw .missing
  | .within back =>
    let names := (name :: back).reverse
    if (d.top.at? names).isSome then throw .alreadyThere
    return d.put .emptyFolder names

/-- Gives a file a new text. -/
def write (d : Directory) (path text : String) : Except FileFault Directory := do
  if path = "" then throw .missing
  let (place, name) ← d.site path
  if isStanding name ∨ path.toList.getLast? = some '/' then throw .isFolder
  match place with
  | .beyond => throw .missing
  | .within back =>
    let names := (name :: back).reverse
    if let some (.folder _) := d.top.at? names then throw .isFolder
    return d.put (.file text) names

end Directory

/-- A directory, and what is left of a standard input. -/
structure Workspace where
  directory : Directory := {}
  input : String := ""

namespace Workspace

/-- Makes a change to the directory, which stays as it is if the change fails. -/
def change (f : Directory → Except FileFault Directory) :
    StateM Workspace (Except FileFault Unit) := do
  match f (← get).directory with
  | .error fault => return .error fault
  | .ok directory =>
    modify fun w ↦ { w with directory }
    return .ok ()

/-- Access to a directory and a standard input. -/
def files : Files (StateM Workspace) where
  kind? path := do return (← get).directory.kind? path
  list path := do return (← get).directory.list path
  read path := do return (← get).directory.read path
  makeFolder path := change (·.makeFolder path)
  write path text := change (·.write path text)
  input := modifyGet fun w ↦ (.ok w.input.toUTF8.toList, { w with input := "" })

end Workspace

end IdlLinker
