/-!
# Paths

Paths are read by their text alone: no file has to exist, and no link is followed. The steps of a
path say how to walk; normalizing a path cancels each step up against the name before it, and the
route from one directory to a path climbs out of what the two do not share and descends to the rest.

A step up that nothing stands before is kept, unless the path begins at the root, above which
nothing lies. The root itself counts as a step, so a route between a path that begins there and one
that does not climbs over it.
-/

namespace IdlLinker.Path

/-- One step of a path. -/
inductive Step where
  /-- The root; only at the beginning. -/
  | root
  /-- The current directory; only at the beginning. -/
  | here
  | up
  | name (s : String)
deriving DecidableEq, Repr

/-- The pieces between slashes; one more than there are slashes. -/
def pieces : List Char → List (List Char)
  | [] => [[]]
  | c :: rest =>
    if c = '/' then [] :: pieces rest
    else
      match pieces rest with
      | [] => [[c]]
      | p :: ps => (c :: p) :: ps

/-- The step that a piece stands for, if it stands for one. -/
def step? (piece : List Char) : Option Step :=
  if piece = [] ∨ piece = ['.'] then none
  else if piece = ['.', '.'] then some .up
  else some (.name (String.ofList piece))

/-- The steps of a path. A point stands for a step only where a path begins with it. -/
def steps (path : String) : List Step :=
  match pieces path.toList with
  | [] => []
  | first :: rest =>
    let body := (first :: rest).filterMap step?
    if first = [] ∧ rest ≠ [] then .root :: body
    else if first = ['.'] then .here :: body
    else body

/-- The name of the file that a path leads to, if its last step is a name. -/
def fileName? (path : String) : Option String :=
  match (steps path).getLast? with
  | some (.name s) => some s
  | _ => none

/-! ## Normal form -/

/-- Takes a step after the steps taken so far, of which the last is first. -/
def take (back : List Step) : Step → List Step
  | .here => back
  | .up =>
    match back with
    | .name _ :: rest => rest
    | .root :: _ => back
    | _ => .up :: back
  | step => step :: back

/-- Steps in which none can be cancelled. -/
def normalize (steps : List Step) : List Step := (steps.foldl take []).reverse

/-- What is left of two lists of steps after their common beginning. -/
def apart : List Step → List Step → List Step × List Step
  | a :: as, b :: bs => if a = b then apart as bs else (a :: as, b :: bs)
  | as, bs => (as, bs)

/-- The steps from a directory to a path. -/
def route (path base : List Step) : List Step :=
  let (down, climb) := apart (normalize path) (normalize base)
  climb.map (fun _ ↦ .up) ++ down

/-! ## Text -/

/-- Appends a step to the text of a path; the root begins anew. -/
def append (text : String) : Step → String
  | .root => "/"
  | .here => join "."
  | .up => join ".."
  | .name s => join s
where
  /-- Appends a piece, with a slash before it where one is needed. -/
  join (piece : String) : String :=
    if text = "" ∨ text.toList.getLast? = some '/' then text ++ piece else text ++ "/" ++ piece

/-- The text of a path; no steps at all lead to the current directory. -/
def render (steps : List Step) : String :=
  if steps.isEmpty then "." else steps.foldl append ""

/-- A path as it is seen from a directory. -/
def relative (path base : String) : String := render (route (steps path) (steps base))

/-! ## Parents -/

/-- Drops the pieces at the end that stand for no step; `back` is reversed, and the first piece of a
path that does not begin at the root may be a point. -/
def dropBlank (rooted : Bool) : List (List Char) → List (List Char)
  | [] => []
  | piece :: rest =>
    if piece = [] ∨ (piece = ['.'] ∧ (rooted ∨ rest ≠ [])) then dropBlank rooted rest
    else piece :: rest

/-- The text of the directory in which a path stands: the path without its last step. The root and
the empty path stand in none. -/
def parent? (path : String) : Option String :=
  let all := pieces path.toList
  let rooted := all.head? = some [] ∧ 1 < all.length
  let body := if rooted then all.tail else all
  match dropBlank rooted body.reverse with
  | [] => none
  | _ :: back =>
    let left := (dropBlank rooted back).reverse
    let text := String.ofList (List.intercalate ['/'] left)
    some (if rooted then "/" ++ text else text)

end IdlLinker.Path
