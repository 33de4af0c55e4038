/-!
# Insertion-ordered tables

A graph names everything it holds by key, and the order in which its files were listed is the
order in which they are reported. A `Table` is therefore a list of entries rather than a search
tree: storing under a new key appends, and storing under an old key replaces the value *in place*,
so that a repeated key keeps its first position and its last value.

The keys of a graph are texts that name its files, its declared types and its declared values. A key
is looked up and compared, and nothing is read from its text.

## Main statements

* `find?_insert` says what each key holds after an entry is stored.
* `keys_insert` says that storing appends a new key and leaves the keys alone otherwise.
-/

namespace IdlLinker

/-! ## Keys -/

abbrev FileId := String

/-- A key of the table of types. -/
abbrev TypeKey := String

/-- A key of the table of values. -/
abbrev ValueKey := String

/-! ## Tables -/

/-- Entries in the order in which their keys were first stored. -/
structure Table (κ : Type) (α : Type) where
  /-- The entries, first stored first. -/
  entries : List (κ × α) := []
deriving Repr

namespace Table

variable {κ α β : Type}

def empty : Table κ α := ⟨[]⟩

instance : Inhabited (Table κ α) := ⟨empty⟩

def keys (t : Table κ α) : List κ := t.entries.map Prod.fst

def values (t : Table κ α) : List α := t.entries.map Prod.snd

def size (t : Table κ α) : Nat := t.entries.length

/-- The entry at a position, if there is one. -/
def entry? (t : Table κ α) (i : Nat) : Option (κ × α) := t.entries[i]?

/-- The same keys with other values. -/
def mapValues (f : α → β) (t : Table κ α) : Table κ β :=
  ⟨t.entries.map fun e ↦ (e.1, f e.2)⟩

variable [DecidableEq κ]

/-- What a list of entries holds under a key: the first match. -/
def lookup (k : κ) : List (κ × α) → Option α
  | [] => none
  | (k', a) :: rest => if k' = k then some a else lookup k rest

/-- Stores an entry in a list: in place of the first match, else at the end. -/
def store (k : κ) (a : α) : List (κ × α) → List (κ × α)
  | [] => [(k, a)]
  | (k', a') :: rest => if k' = k then (k, a) :: rest else (k', a') :: store k a rest

/-- The value stored under a key. -/
def find? (t : Table κ α) (k : κ) : Option α := lookup k t.entries

/-- Stores a value: a new key goes to the end, an old key keeps its position. -/
def insert (t : Table κ α) (k : κ) (a : α) : Table κ α := ⟨store k a t.entries⟩

/-- The table that holds the given entries, stored one after the other. -/
def ofList (es : List (κ × α)) : Table κ α := es.foldl (fun t e ↦ t.insert e.1 e.2) empty

/-- The position of a key; the number of entries when the key is absent. -/
def index (t : Table κ α) (k : κ) : Nat := t.keys.idxOf k

/-! ## Storing and finding -/

theorem lookup_store (k k' : κ) (a : α) (es : List (κ × α)) :
    lookup k' (store k a es) = if k = k' then some a else lookup k' es := by
  induction es with
  | nil => simp [store, lookup]
  | cons e rest ih =>
    obtain ⟨l, b⟩ := e
    by_cases hl : l = k
    · subst hl
      by_cases hk : l = k' <;> simp [store, lookup, hk]
    · by_cases hk : k = k'
      · subst hk
        simp [store, lookup, hl, ih]
      · by_cases hl' : l = k'
        · subst hl'
          simp [store, lookup, hl, hk]
        · simp [store, lookup, hl, hk, hl', ih]

/-- After storing under `k`, that key holds the new value and every other key what it held. -/
theorem find?_insert (t : Table κ α) (k k' : κ) (a : α) :
    (t.insert k a).find? k' = if k = k' then some a else t.find? k' :=
  lookup_store k k' a t.entries

theorem lookup_eq_none_iff {k : κ} {es : List (κ × α)} :
    lookup k es = none ↔ k ∉ es.map Prod.fst := by
  induction es with
  | nil => simp [lookup]
  | cons e rest ih =>
    by_cases h : e.1 = k
    · simp [lookup, h]
    · simp [lookup, h, ih, Ne.symm h]

theorem find?_eq_none_iff {t : Table κ α} {k : κ} : t.find? k = none ↔ k ∉ t.keys :=
  lookup_eq_none_iff

theorem map_fst_store (k : κ) (a : α) (es : List (κ × α)) :
    (store k a es).map Prod.fst =
      if k ∈ es.map Prod.fst then es.map Prod.fst else es.map Prod.fst ++ [k] := by
  induction es with
  | nil => simp [store]
  | cons e rest ih =>
    obtain ⟨l, b⟩ := e
    by_cases hl : l = k
    · simp [store, hl]
    · by_cases hm : k ∈ rest.map Prod.fst <;> simp [store, hl, Ne.symm hl, hm, ih]

theorem keys_insert (t : Table κ α) (k : κ) (a : α) :
    (t.insert k a).keys = if k ∈ t.keys then t.keys else t.keys ++ [k] :=
  map_fst_store k a t.entries

end Table

end IdlLinker
