/-!
# Arenas

Declarations may refer to themselves, directly or around a cycle, so they are never held by value:
a module keeps them in arenas and refers to them by position. Two uses of one declaration are equal
because they hold the same position.
-/

namespace IdlLinker

/-- Items by position. -/
structure Arena (α : Type) where
  /-- The items, the one at position zero first. -/
  items : List α := []
deriving DecidableEq, Repr

/-- A position past the end of an arena was used. -/
structure OutOfBounds where
  /-- The number of items. -/
  size : Nat
  /-- The position. -/
  index : Nat
deriving DecidableEq, Repr

def OutOfBounds.message (e : OutOfBounds) : String :=
  "index out of bounds: the len is " ++ toString e.size ++ " but the index is " ++ toString e.index

namespace Arena

variable {α : Type}

def empty : Arena α := ⟨[]⟩

def size (a : Arena α) : Nat := a.items.length

def isEmpty (a : Arena α) : Bool := a.items.isEmpty

/-- Adds an item at the end, and gives its position. -/
def alloc (a : Arena α) (x : α) : Arena α × Nat := (⟨a.items ++ [x]⟩, a.size)

def get? (a : Arena α) (i : Nat) : Option α := a.items[i]?

/-- Replaces the item at a position, if there is one. -/
def set? (a : Arena α) (i : Nat) (x : α) : Option (Arena α) :=
  if i < a.size then some ⟨a.items.set i x⟩ else none

/-- The item at a position that has to be there. -/
def get (a : Arena α) (i : Nat) : Except OutOfBounds α :=
  match a.get? i with
  | some x => .ok x
  | none => .error ⟨a.size, i⟩

/-- Changes the item at a position that has to be there. -/
def modify (a : Arena α) (i : Nat) (f : α → α) : Except OutOfBounds (Arena α) := do
  let x ← a.get i
  return ⟨a.items.set i (f x)⟩

/-- The items with their positions. -/
def indexed (a : Arena α) : List (Nat × α) := a.items.zipIdx.map fun e ↦ (e.2, e.1)

/-! ## Allocation -/

theorem get?_alloc_self (a : Arena α) (x : α) : (a.alloc x).1.get? (a.alloc x).2 = some x := by
  simp [alloc, get?, size]

theorem get?_alloc_of_lt (a : Arena α) (x : α) {i : Nat} (h : i < a.size) :
    (a.alloc x).1.get? i = a.get? i := by
  simp only [alloc, get?, size] at *
  rw [List.getElem?_append_left h]

end Arena

end IdlLinker
