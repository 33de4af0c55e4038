import IdlLinker.Json.Shape.Reader
import Mathlib.Data.List.TakeWhile

/-!
# Rules of readers

A reader that succeeds takes a text off the front of its input. This module has the rules by which
that is followed through a reader, in both directions: what a reader does on an input whose front is
known, and what can be said of a value because some reader gave it.

## Texts in their place

The text of a value is read wherever it stands, so blanks may come before it and something else
comes after it. Only a number is not over before something else begins: a digit, a point or an
exponent would go on with it. `Apart` says that what comes after is none of these, and `Reads` that
a reader takes exactly a text off every input with that text in such a place.

## Values from readers

`Yields r P` says that every value that `r` gives satisfies `P`, whatever the input.
-/

namespace IdlLinker.Json.Reader

variable {α β σ κ : Type} {r : Reader α} {f : α → Reader β} {a : α} {b : β} {i j : List UInt8}

/-! ## Sequences of readers -/

/-- What comes after a reader that succeeds goes on with its value and what it left. -/
theorem bind_ok (h : r i = .ok (a, j)) : (r >>= f) i = f a j := by
  change Except.bind (r i) _ = _
  rw [h]
  rfl

theorem bind_eq_ok {out : β × List UInt8} :
    (r >>= f) i = .ok out ↔ ∃ a j, r i = .ok (a, j) ∧ f a j = .ok out := by
  change Except.bind (r i) _ = _ ↔ _
  cases h : r i with
  | error e => simp [Except.bind]
  | ok p => exact ⟨fun next ↦ ⟨p.1, p.2, rfl, next⟩, by rintro ⟨a, j, ⟨⟩, next⟩; exact next⟩

theorem inside_eq_ok {segment : Segment} {out : α × List UInt8} :
    inside segment r i = .ok out ↔ r i = .ok out := by
  rw [inside]
  cases r i <;> simp [Except.mapError]

theorem inside_ok (segment : Segment) {out : α × List UInt8} (h : r i = .ok out) :
    inside segment r i = .ok out :=
  inside_eq_ok.mpr h

/-! ## Single bytes -/

theorem peek_cons (b : UInt8) (rest : List UInt8) :
    peek (b :: rest) = .ok (some (Char.ofUInt8 b), b :: rest) := rfl

theorem advance_cons (b : UInt8) (rest : List UInt8) : advance (b :: rest) = .ok ((), rest) := rfl

theorem remaining_eq (i : List UInt8) : remaining i = .ok (i.length, i) := rfl

theorem get_eq (i : List UInt8) : (get : Reader (List UInt8)) i = .ok (i, i) := rfl

/-! ## Blanks -/

/-- A text of blanks. -/
def Blank (gap : List UInt8) : Prop := ∀ b ∈ gap, isBlank b = true

theorem Blank.nil : Blank [] := by simp [Blank]

theorem Blank.append {gap gap' : List UInt8} (h : Blank gap) (h' : Blank gap') :
    Blank (gap ++ gap') := fun b hb ↦ (List.mem_append.mp hb).elim (h b) (h' b)

theorem Blank.eq_nil {gap i j : List UInt8} {b : UInt8} (h : Blank gap) (same : b :: i = gap ++ j)
    (solid : isBlank b = false) : gap = [] := by
  cases gap with
  | nil => rfl
  | cons g gap =>
    obtain ⟨rfl, -⟩ := List.cons.inj same
    exact absurd (h b List.mem_cons_self) (Bool.eq_false_iff.mp solid)

theorem next_ok {gap : List UInt8} {b : UInt8} {rest : List UInt8} (blank : Blank gap)
    (h : isBlank b = false) :
    next (gap ++ b :: rest) = .ok (some (Char.ofUInt8 b), b :: rest) := by
  rw [next, List.dropWhile_append_of_pos blank, List.dropWhile_cons_of_neg (by simp [h])]
  rfl

theorem start_ok {gap : List UInt8} {b : UInt8} {rest : List UInt8} (blank : Blank gap)
    (h : isBlank b = false) :
    start (gap ++ b :: rest) = .ok (Char.ofUInt8 b, b :: rest) := by
  rw [start, bind_ok (next_ok blank h)]
  rfl

theorem take?_of_eq {c : Char} {b : UInt8} {rest : List UInt8} (h : Char.ofUInt8 b = c) :
    take? c (b :: rest) = .ok (true, rest) := by
  subst h
  rw [take?, bind_ok (peek_cons _ _), if_pos rfl]
  rfl

theorem take?_of_ne {c : Char} {rest : List UInt8}
    (h : ∀ b ∈ rest.head?, Char.ofUInt8 b ≠ c) : take? c rest = .ok (false, rest) := by
  rw [take?, bind_ok (a := rest.head?.map Char.ofUInt8) (j := rest) rfl, if_neg]
  · rfl
  · simpa using h

/-! ## Texts in their place -/

/-- What comes after a text is not part of a number that the text ends with. -/
def Apart (rest : List UInt8) : Prop :=
  ∀ b ∈ rest.head?, isDigit (Char.ofUInt8 b) = false ∧
    Char.ofUInt8 b ≠ '.' ∧ Char.ofUInt8 b ≠ 'e' ∧ Char.ofUInt8 b ≠ 'E'

theorem Apart.nil : Apart [] := by simp [Apart]

theorem Apart.after {gap rest : List UInt8} (h : Apart rest) (blank : Blank gap) :
    Apart (gap ++ rest) := by
  cases gap with
  | nil => exact h
  | cons b gap =>
    rintro b ⟨⟩
    have isBlank := blank b List.mem_cons_self
    simp only [Reader.isBlank, Bool.or_eq_true, beq_iff_eq] at isBlank
    rcases isBlank with ((rfl | rfl) | rfl) | rfl <;> decide

/-- A text begins with neither a blank nor the end of a list. -/
def Solid (t : List UInt8) : Prop :=
  ∃ b u, t = b :: u ∧ isBlank b = false ∧ Char.ofUInt8 b ≠ ']'

theorem Solid.length_pos {t : List UInt8} (h : Solid t) : 0 < t.length := by
  obtain ⟨b, u, rfl, -⟩ := h
  exact Nat.succ_pos _

/-- A reader takes exactly this text off the input, blanks before it included, and gives `a`. -/
structure Reads (r : Reader α) (t : List UInt8) (a : α) : Prop where
  /-- There is something to take. -/
  solid : Solid t
  /-- It is taken in every place. -/
  read : ∀ gap rest, Blank gap → Apart rest → r (gap ++ (t ++ rest)) = .ok (a, rest)

theorem Reads.before {t rest : List UInt8} (h : Reads r t a) (apart : Apart rest) :
    r (t ++ rest) = .ok (a, rest) :=
  h.read [] rest .nil apart

theorem Reads.alone {t : List UInt8} (h : Reads r t a) : r t = .ok (a, []) := by
  simpa using h.before .nil

/-! ## Values from readers -/

/-- Every value that a reader gives satisfies a predicate. -/
def Yields (r : Reader α) (P : α → Prop) : Prop := ∀ i a j, r i = .ok (a, j) → P a

namespace Yields

variable {P : α → Prop} {Q : β → Prop}

theorem any (r : Reader α) : Yields r fun _ ↦ True := fun _ _ _ _ ↦ trivial

theorem pure (h : P a) : Yields (pure a) P := by
  rintro i b j ⟨⟩
  exact h

theorem fail (cause : Cause) : Yields (fail cause : Reader α) P := by
  rintro i a j ⟨⟩

theorem bind (first : Yields r P) (second : ∀ a, P a → Yields (f a) Q) : Yields (r >>= f) Q := by
  intro i b k h
  obtain ⟨a, j, ha, hb⟩ := bind_eq_ok.mp h
  exact second a (first i a j ha) j b k hb

theorem after (second : ∀ a, Yields (f a) Q) : Yields (r >>= f) Q :=
  bind (any r) fun a _ ↦ second a

theorem inside {segment : Segment} (h : Yields r P) : Yields (inside segment r) P :=
  fun i a j hr ↦ h i a j (inside_eq_ok.mp hr)

theorem weaken {P' : α → Prop} (h : Yields r P) (imp : ∀ a, P a → P' a) : Yields r P' :=
  fun i a j hr ↦ imp a (h i a j hr)

theorem ite {p : Prop} [Decidable p] {s : Reader α} (yes : p → Yields r P) (no : ¬p → Yields s P) :
    Yields (if p then r else s) P := by
  split
  · exact yes ‹_›
  · exact no ‹_›

theorem mismatch (expected : String) (c : Char) : Yields (mismatch expected c : Reader α) P := by
  unfold Reader.mismatch
  split
  · exact after fun _ ↦ after fun _ ↦ fail _
  · exact after fun _ ↦ after fun _ ↦ fail _
  · exact after fun _ ↦ after fun _ ↦ fail _
  · exact after fun _ ↦ after fun _ ↦ fail _
  · exact fail _
  · exact fail _
  · refine ite (fun _ ↦ after fun n ↦ ?_) fun _ ↦ fail _
    cases n <;> exact fail _

end Yields

end IdlLinker.Json.Reader
