/-!
# Numbered tables

The methods of an interface come under their numbers, and they are listed in the order of these
numbers, whatever the order in which a front end wrote them. A `Numbered` table keeps that order as
part of what it is: its entries are increasing, so that no number occurs twice, and storing puts an
entry where its number belongs.

A list of entries in any order would do for lookup, but not for equality: two tables that hold the
same are equal here, and a front end that lists the methods backwards produces the same interface as
one that does not. The proof that entries increase is a field of the structure and is erased when
the program runs.
-/

namespace IdlLinker

namespace Numbered

variable {α : Type}

/-- Stores an entry in a list: in place of the entry with its number, else before the first greater
number. -/
def store (k : UInt32) (a : α) : List (UInt32 × α) → List (UInt32 × α)
  | [] => [(k, a)]
  | (k', a') :: rest =>
    if k < k' then (k, a) :: (k', a') :: rest
    else if k = k' then (k, a) :: rest
    else (k', a') :: store k a rest

theorem mem_store {k : UInt32} {a : α} {es : List (UInt32 × α)} {e : UInt32 × α}
    (h : e ∈ store k a es) : e = (k, a) ∨ e ∈ es := by
  induction es with
  | nil =>
    rw [store, List.mem_singleton] at h
    exact Or.inl h
  | cons x rest ih =>
    obtain ⟨k', a'⟩ := x
    rw [store] at h
    split at h
    · exact List.mem_cons.mp h
    · split at h
      · rcases List.mem_cons.mp h with h | h
        · exact Or.inl h
        · exact Or.inr (List.mem_cons_of_mem _ h)
      · rcases List.mem_cons.mp h with rfl | h
        · exact Or.inr List.mem_cons_self
        · exact (ih h).imp id (List.mem_cons_of_mem _)

theorem pairwise_store (k : UInt32) (a : α) {es : List (UInt32 × α)}
    (h : es.Pairwise fun e e' ↦ e.1 < e'.1) : (store k a es).Pairwise fun e e' ↦ e.1 < e'.1 := by
  induction es with
  | nil => simp [store]
  | cons x rest ih =>
    obtain ⟨k', a'⟩ := x
    obtain ⟨first, others⟩ := List.pairwise_cons.mp h
    rw [store]
    split
    · rename_i less
      refine List.pairwise_cons.mpr ⟨fun e he ↦ ?_, h⟩
      rcases List.mem_cons.mp he with rfl | he
      · exact less
      · exact UInt32.lt_trans less (first e he)
    · split
      · rename_i same
        subst same
        exact List.pairwise_cons.mpr ⟨first, others⟩
      · rename_i notLess notSame
        have greater : k' < k := by
          refine UInt32.lt_iff_toNat_lt.mpr ?_
          have ne : k.toNat ≠ k'.toNat := fun eq ↦ notSame (UInt32.toNat_inj.mp eq)
          have ge : ¬k.toNat < k'.toNat := fun lt ↦ notLess (UInt32.lt_iff_toNat_lt.mpr lt)
          omega
        refine List.pairwise_cons.mpr ⟨fun e he ↦ ?_, ih others⟩
        rcases mem_store he with rfl | he
        · exact greater
        · exact first e he

end Numbered

/-- Entries under numbers, in the order of the numbers. -/
structure Numbered (α : Type) where
  /-- The entries, the least number first. -/
  entries : List (UInt32 × α) := []
  /-- The numbers increase. -/
  increasing : entries.Pairwise fun e e' ↦ e.1 < e'.1 := by simp
deriving DecidableEq

namespace Numbered

variable {α : Type}

def empty : Numbered α := {}

/-- Stores a value under a number: in place of the value there, else where the number belongs. -/
def insert (t : Numbered α) (k : UInt32) (a : α) : Numbered α :=
  ⟨store k a t.entries, pairwise_store k a t.increasing⟩

end Numbered

end IdlLinker
