import IdlLinker.Files
import IdlLinker.Glob.Pattern
import IdlLinker.Path

/-!
# Finding files by pattern

A path pattern is followed component by component. A component without wildcards is looked up; any
other is compared with the names in the folder, which are taken in the order of their characters.
Under a component for any number of folders a name is compared with the next component, and what
lies below it comes after what it leads to by itself.

The points that stand for a folder and for the one above it are names only for a pattern that
begins with a point, and come before all others.

A search goes at most `depthLimit` folders down for one component. No path can be longer than this
many characters, so no folder is missed.
-/

namespace IdlLinker.Glob

/-- A folder whose names cannot be read. -/
structure SearchFault where
  path : String
  fault : FileFault
deriving DecidableEq, Repr

def SearchFault.message (e : SearchFault) : String :=
  "attempting to read `" ++ e.path ++ "` resulted in an error: " ++ e.fault.message

/-- A path that was found, or a place where a search did not come through. -/
abbrev Found := Except SearchFault String

/-- How many folders a search goes down for one component. -/
def depthLimit : Nat := 4096

/-- The path of a name in a folder; names in the current folder stand alone. -/
def child (path name : String) : String :=
  if Path.steps path = [.here] then name else Path.append path (.name name)

/-- The paths that components lead to from a path, of which `depth` more folders may be passed for
one component. -/
def search {m : Type → Type} [Monad m] (files : Files m) (onlyFolders : Bool) :
    Nat → List Pattern → String → m (List Found)
  | _, [], path => do
    if onlyFolders && !(← files.isFolder path) then return [] else return [.ok path]
  | depth, p :: rest, path => do
    match p.literal? with
    | some name =>
      let there ←
        if name = "." ∨ name = ".." then files.isFolder path else files.isThere (child path name)
      if there then search files onlyFolders depth rest (child path name) else return []
    | none =>
      if !(← files.isFolder path) then return []
      match ← files.list path with
      | .error fault => return [.error ⟨path, fault⟩]
      | .ok names =>
        let points := if p.beginsWithPoint then ["..", "."].filter p.admits else []
        let special ← points.mapM fun name ↦
          search files onlyFolders depth rest (Path.append path (.name name))
        let ordinary ← (names.mergeSort fun a b ↦ a ≤ b).mapM fun name ↦ do
          let path := child path name
          if !p.isRecursive then
            if p.admits name then search files onlyFolders depth rest path else return []
          else
            let isFolder ← files.isFolder path
            let below ←
              match depth with
              | depth + 1 =>
                if isFolder then search files onlyFolders depth (p :: rest) path else pure []
              | 0 => pure []
            match rest with
            | [] => return if isFolder then .ok path :: below else []
            | next :: rest =>
              if next.admits name then
                return (← search files onlyFolders depth rest path) ++ below
              else return below
        return special.flatten ++ ordinary.flatten
termination_by depth components => (components.length, depth)

/-- The files that a path pattern stands for, in order. -/
def PathPattern.find {m : Type → Type} [Monad m] (files : Files m) (p : PathPattern) :
    m (List Found) :=
  search files p.onlyFolders depthLimit p.components (if p.rooted then "/" else ".")

end IdlLinker.Glob
