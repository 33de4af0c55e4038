import IdlLinker.Proofs.Json.Number
import IdlLinker.Proofs.Table

/-!
# Lists and objects in a document

A list and an object are parts between brackets, with commas between the parts and blanks around
them. `Encloses` is this grammar, for either kind of bracket, with the texts of the parts; the parts
of an object are members, each a key, a colon and a value.

The loops of the reader take such a text off the input when their bodies take the parts: `items` one
value after the other, and `members` with a state that changes from member to member. A bracket is
left open by the loop that enters it, so both are about what comes after the opening bracket.
-/

namespace IdlLinker.Json

open Reader

/-! ## Brackets and parts -/

/-- What follows a part of a list or an object: a comma and the next part, over and over, and then
the closing bracket. -/
inductive Continues (close : UInt8) : List (List UInt8) → List UInt8 → Prop where
  | stop {gap : List UInt8} (h : Blank gap) : Continues close [] (gap ++ [close])
  | more {gap gap' part rest : List UInt8} {parts : List (List UInt8)} (h : Blank gap)
      (h' : Blank gap') (others : Continues close parts rest) :
      Continues close (part :: parts) (gap ++ 0x2c :: (gap' ++ (part ++ rest)))

/-- Parts between brackets. -/
inductive Encloses (opening close : UInt8) : List (List UInt8) → List UInt8 → Prop where
  | empty {gap : List UInt8} (h : Blank gap) :
      Encloses opening close [] (opening :: (gap ++ [close]))
  | parts {gap part rest : List UInt8} {parts : List (List UInt8)} (h : Blank gap)
      (others : Continues close parts rest) :
      Encloses opening close (part :: parts) (opening :: (gap ++ (part ++ rest)))

/-- A member of an object: the texts of its key and its value with a colon between them. -/
inductive Member : List UInt8 × List UInt8 → List UInt8 → Prop where
  | mk {key value gap gap' : List UInt8} (h : Blank gap) (h' : Blank gap') :
      Member (key, value) (key ++ (gap ++ 0x3a :: (gap' ++ value)))

/-- A list with items of the given texts. -/
def IsList (items : List (List UInt8)) (t : List UInt8) : Prop := Encloses 0x5b 0x5d items t

/-- An object whose members have the given texts for keys and values. -/
def IsObject (members : List (List UInt8 × List UInt8)) (t : List UInt8) : Prop :=
  ∃ parts, List.Forall₂ Member members parts ∧ Encloses 0x7b 0x7d parts t

variable {close opening : UInt8} {parts : List (List UInt8)} {t u rest gap : List UInt8}

/-- What comes after a part is not part of a number that the part ends with. -/
theorem Continues.apart (hc : close = 0x5d ∨ close = 0x7d) (h : Continues close parts u)
    (rest : List UInt8) : Apart (u ++ rest) := by
  cases h with
  | @stop gap blank =>
    rw [List.append_assoc]
    refine Apart.after ?_ blank
    rintro b ⟨⟩
    rcases hc with rfl | rfl <;> decide
  | @more gap _ _ _ _ blank =>
    rw [List.append_assoc]
    refine Apart.after ?_ blank
    rintro b ⟨⟩
    decide

theorem Continues.length_lt (h : Continues close parts u) : parts.length < u.length := by
  induction h with
  | stop => simp
  | more _ _ _ ih =>
    simp only [List.length_cons, List.length_append]
    omega

theorem colon_ok (blank : Blank gap) (rest : List UInt8) :
    colon (gap ++ 0x3a :: rest) = .ok ((), rest) := by
  rw [colon, bind_ok (next_ok blank (by decide))]
  rfl

/-! ## Reading a list -/

section Items

variable {α : Type} {item : Reader α} {as : List α}

theorem nextItem_close {first : Bool} (blank : Blank gap) (rest : List UInt8) :
    nextItem first (gap ++ 0x5d :: rest) = .ok (false, 0x5d :: rest) := by
  rw [nextItem, bind_ok (next_ok blank (by decide))]
  rfl

theorem nextItem_first (blank : Blank gap) (solid : Solid t) (rest : List UInt8) :
    nextItem true (gap ++ (t ++ rest)) = .ok (true, t ++ rest) := by
  obtain ⟨b, u, rfl, hb, ne⟩ := solid
  rw [List.cons_append, nextItem, bind_ok (next_ok blank hb)]
  simp only [↓reduceIte]
  rfl

theorem nextItem_more {gap' : List UInt8} (blank : Blank gap) (blank' : Blank gap')
    (solid : Solid t) (rest : List UInt8) :
    nextItem false (gap ++ 0x2c :: (gap' ++ (t ++ rest))) = .ok (true, t ++ rest) := by
  obtain ⟨b, u, rfl, hb, ne⟩ := solid
  have comma : next (gap ++ 0x2c :: (gap' ++ (b :: (u ++ rest)))) =
      .ok (some ',', 0x2c :: (gap' ++ (b :: (u ++ rest)))) := next_ok blank (by decide)
  have noClose : ',' ≠ ']' := by decide
  rw [List.cons_append, nextItem, bind_ok comma]
  simp only [Bool.false_eq_true, ↓reduceIte]
  rw [bind_ok (advance_cons _ _), bind_ok (next_ok blank' hb)]
  simp only
  rfl

theorem items_continues (h : Continues 0x5d parts u)
    (reads : List.Forall₂ (fun a t ↦ Reads item t a) as parts) {fuel index : Nat} {back : List α}
    (later : index ≠ 0) (lt : parts.length < fuel) (rest : List UInt8) :
    items item fuel index back (u ++ rest) = .ok (back.reverse ++ as, rest) := by
  induction h generalizing as fuel index back with
  | stop blank =>
    cases reads
    obtain ⟨fuel, rfl⟩ := Nat.exists_eq_add_one_of_ne_zero (Nat.ne_zero_of_lt lt)
    rw [List.append_assoc, List.singleton_append, items, bind_ok (nextItem_close blank rest),
      if_neg Bool.false_ne_true, List.append_nil]
    rfl
  | more blank blank' others ih =>
    cases reads with
    | cons first reads =>
      obtain ⟨fuel, rfl⟩ := Nat.exists_eq_add_one_of_ne_zero (Nat.ne_zero_of_lt lt)
      have item_ok := inside_ok (.item index) (first.before (others.apart (.inl rfl) rest))
      simp only [List.append_assoc, List.cons_append]
      rw [items, decide_eq_false later, bind_ok (nextItem_more blank blank' first.solid _),
        if_pos rfl, bind_ok item_ok,
        ih reads (Nat.succ_ne_zero index) (by simpa using lt), List.reverse_cons,
        List.append_assoc, List.singleton_append]

/-- **The items of a list are read one after the other**, up to and with the closing bracket. -/
theorem items_ok (h : IsList parts t) (reads : List.Forall₂ (fun a t ↦ Reads item t a) as parts) :
    ∃ tail, t = 0x5b :: tail ∧ ∀ fuel rest, tail.length ≤ fuel →
      items item fuel 0 [] (tail ++ rest) = .ok (as, rest) := by
  cases h with
  | @empty gap blank =>
    cases reads
    refine ⟨_, rfl, fun fuel rest le ↦ ?_⟩
    obtain ⟨fuel, rfl⟩ := Nat.exists_eq_add_one_of_ne_zero (n := fuel) (by simp at le; omega)
    rw [List.append_assoc, List.singleton_append, items, bind_ok (nextItem_close blank rest),
      if_neg Bool.false_ne_true]
    rfl
  | @parts gap part rest' parts blank others =>
    cases reads with
    | cons first reads =>
      refine ⟨_, rfl, fun fuel rest le ↦ ?_⟩
      have more := others.length_lt
      have byte := first.solid.length_pos
      simp only [List.length_append] at le
      obtain ⟨fuel, rfl⟩ := Nat.exists_eq_add_one_of_ne_zero (n := fuel) (by omega)
      have item_ok := inside_ok (.item 0) (first.before (others.apart (.inl rfl) rest))
      simp only [List.append_assoc]
      rw [items, decide_eq_true rfl, bind_ok (nextItem_first blank first.solid _), if_pos rfl,
        bind_ok item_ok, items_continues others reads (Nat.succ_ne_zero 0) (by omega)]
      rfl

end Items

/-! ## Reading an object -/

section Members

variable {κ σ : Type} {key : Reader κ} {step : κ → σ → Reader σ} {s s' s'' : σ}

/-- A member takes a state to the next: its key is read after the opening quote, and then the rest
of the member. -/
def Moves (key : Reader κ) (step : κ → σ → Reader σ) (s : σ) (m : List UInt8) (s' : σ) : Prop :=
  ∃ u, m = 0x22 :: u ∧ ∀ rest, Apart rest →
    ∃ k j, key (u ++ rest) = .ok (k, j) ∧ step k s j = .ok (s', rest)

/-- The members take a state to the last one after the other. -/
inductive Chain (move : σ → List UInt8 → σ → Prop) : σ → List (List UInt8) → σ → Prop where
  | nil {s : σ} : Chain move s [] s
  | cons {s s' s'' : σ} {m : List UInt8} {ms : List (List UInt8)} (first : move s m s')
      (others : Chain move s' ms s'') : Chain move s (m :: ms) s''

theorem nextMember_close (first : Bool) (blank : Blank gap) (rest : List UInt8) :
    nextMember first (gap ++ 0x7d :: rest) = .ok (false, 0x7d :: rest) := by
  rw [nextMember, bind_ok (next_ok blank (by decide))]
  rfl

theorem nextMember_first (blank : Blank gap) (rest : List UInt8) :
    nextMember true (gap ++ 0x22 :: rest) = .ok (true, rest) := by
  rw [nextMember, bind_ok (next_ok blank (by decide))]
  rfl

theorem nextMember_more {gap' : List UInt8} (blank : Blank gap) (blank' : Blank gap')
    (rest : List UInt8) :
    nextMember false (gap ++ 0x2c :: (gap' ++ 0x22 :: rest)) = .ok (true, rest) := by
  have comma : next (gap ++ 0x2c :: (gap' ++ 0x22 :: rest)) =
      .ok (some ',', 0x2c :: (gap' ++ 0x22 :: rest)) := next_ok blank (by decide)
  have quote : next (gap' ++ 0x22 :: rest) = .ok (some '"', 0x22 :: rest) :=
    next_ok blank' (by decide)
  have noClose : ',' ≠ '\x7d' := by decide
  rw [nextMember, bind_ok comma]
  simp only [Bool.false_eq_true, ↓reduceIte]
  rw [bind_ok (advance_cons _ _), bind_ok quote]
  rfl

theorem members_close {first : Bool} (blank : Blank gap) (fuel : Nat) (rest : List UInt8) :
    members key step (fuel + 1) first s (gap ++ 0x7d :: rest) = .ok (s, rest) := by
  have stops := inside_ok .unnamed <|
    (bind_ok (f := fun more ↦ if more = true then return some (← key) else return none)
      (nextMember_close first blank rest)).trans rfl
  rw [members]
  exact bind_ok stops

theorem members_next {first : Bool} {i rest j : List UInt8} {k : κ} (fuel : Nat)
    (more : nextMember first i = .ok (true, rest)) (hk : key rest = .ok (k, j)) {j' : List UInt8}
    (hs : step k s j = .ok (s', j')) :
    members key step (fuel + 1) first s i = members key step fuel false s' j' := by
  have goesOn := inside_ok .unnamed <|
    (bind_ok (f := fun more ↦ if more = true then return some (← key) else return none) more).trans
      (bind_ok hk)
  rw [members]
  exact (bind_ok goesOn).trans (bind_ok hs)

theorem members_continues (h : Continues 0x7d parts u) (chain : Chain (Moves key step) s parts s')
    {fuel : Nat} (lt : parts.length < fuel) (rest : List UInt8) :
    members key step fuel false s (u ++ rest) = .ok (s', rest) := by
  induction h generalizing s fuel with
  | stop blank =>
    cases chain
    obtain ⟨fuel, rfl⟩ := Nat.exists_eq_add_one_of_ne_zero (Nat.ne_zero_of_lt lt)
    rw [List.append_assoc]
    exact members_close blank fuel rest
  | more blank blank' others ih =>
    cases chain with
    | cons first chain =>
      obtain ⟨fuel, rfl⟩ := Nat.exists_eq_add_one_of_ne_zero (Nat.ne_zero_of_lt lt)
      obtain ⟨u, rfl, moves⟩ := first
      obtain ⟨k, j, hk, hs⟩ := moves _ (others.apart (.inr rfl) rest)
      simp only [List.append_assoc, List.cons_append]
      rw [members_next fuel (nextMember_more blank blank' _) hk hs, ih chain (by simpa using lt)]

/-- **The members of an object are read one after the other**, up to and with the closing brace. -/
theorem members_ok (h : Encloses 0x7b 0x7d parts t) (chain : Chain (Moves key step) s parts s') :
    ∃ tail, t = 0x7b :: tail ∧ ∀ fuel rest, tail.length ≤ fuel →
      members key step fuel true s (tail ++ rest) = .ok (s', rest) := by
  cases h with
  | @empty gap blank =>
    cases chain
    refine ⟨_, rfl, fun fuel rest le ↦ ?_⟩
    obtain ⟨fuel, rfl⟩ := Nat.exists_eq_add_one_of_ne_zero (n := fuel) (by simp at le; omega)
    rw [List.append_assoc]
    exact members_close blank fuel rest
  | @parts gap part rest' parts blank others =>
    cases chain with
    | cons first chain =>
      refine ⟨_, rfl, fun fuel rest le ↦ ?_⟩
      have more := others.length_lt
      obtain ⟨u, rfl, moves⟩ := first
      obtain ⟨k, j, hk, hs⟩ := moves _ (others.apart (.inr rfl) rest)
      simp only [List.length_append, List.length_cons] at le
      obtain ⟨fuel, rfl⟩ := Nat.exists_eq_add_one_of_ne_zero (n := fuel) (by omega)
      simp only [List.append_assoc, List.cons_append]
      rw [members_next fuel (nextMember_first blank _) hk hs,
        members_continues others chain (by omega)]

end Members

end IdlLinker.Json
