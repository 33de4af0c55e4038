import IdlLinker.Proofs.Json.Skipped

/-!
# What was taken between brackets

A reader takes values if what it takes off the input, blanks before it apart, is always one value,
which it takes in every other place as well and gives the same (`TakesValues`). In every other place
means wherever the value ends; this is a condition for numbers only.

A value is told apart by its first byte. What reads the others (`Completes`) does so whatever comes
after them: a quote or a bracket is closed, and a keyword has its length. For lists and objects this
is a matter of the loops over items and members. What their bodies took is put together to the text
of the whole, and the rules of `Grammar` say that the loops take it wherever it stands.
-/

namespace IdlLinker.Json.Reader

variable {α β σ κ : Type} {r : Reader α} {f : α → Reader β} {a : α} {b : UInt8}
  {i j t u gap gap' : List UInt8}

/-! ## Taking values -/

/-- A reader takes this text off the input as one value, blanks before it included, and gives `a`,
wherever the text ends. -/
structure Takes (r : Reader α) (t : List UInt8) (a : α) : Prop where
  value : IsValue t
  read : ∀ gap rest, Blank gap → Ends t rest → r (gap ++ (t ++ rest)) = .ok (a, rest)

theorem Takes.reads (h : Takes r t a) : Reads r t a :=
  ⟨h.value.begins, fun gap rest blank apart ↦ h.read gap rest blank (apart.ends t)⟩

/-- What a reader takes is a value. -/
def TakesValues (r : Reader α) : Prop :=
  ∀ i a j, r i = .ok (a, j) →
    ∃ gap t, Blank gap ∧ Takes r t a ∧ Ends t j ∧ i = gap ++ (t ++ j)

/-- What a reader takes are the other bytes of a value that begins with `b`. -/
def Completes (b : UInt8) (r : Reader α) : Prop :=
  ∀ i a j, r i = .ok (a, j) →
    ∃ u, IsValue (b :: u) ∧ i = u ++ j ∧ ∀ rest, r (u ++ rest) = .ok (a, rest)

/-- What a reader takes are a colon and a value. -/
def TakesRest (r : Reader α) : Prop :=
  ∀ i a j, r i = .ok (a, j) → ∃ gap gap' t, Blank gap ∧ Blank gap' ∧ IsValue t ∧
    i = gap ++ 0x3a :: (gap' ++ (t ++ j)) ∧
      ∀ rest, Apart rest → r (gap ++ 0x3a :: (gap' ++ (t ++ rest))) = .ok (a, rest)

/-- A reader takes nothing and does not look at the input. -/
def Idle (r : Reader α) : Prop := ∀ i a j, r i = .ok (a, j) → ∀ k, r k = .ok (a, k)

/-! ## Idle readers -/

namespace Idle

theorem rest_eq (idle : Idle r) (h : r i = .ok (a, j)) : i = j :=
  (Prod.mk.inj (Except.ok.inj ((idle i a j h i).symm.trans h))).2

theorem pure (a : α) : Idle (pure a) := by
  rintro i a' j ⟨⟩ k
  rfl

theorem fail (cause : Cause) : Idle (fail cause : Reader α) := nofun

theorem ite {p : Prop} [Decidable p] {s : Reader α} (yes : Idle r) (no : Idle s) :
    Idle (if p then r else s) := by
  split
  · exact yes
  · exact no

theorem inside {segment : Segment} (idle : Idle r) : Idle (inside segment r) :=
  fun i a j h k ↦ inside_ok segment (idle i a j (inside_eq_ok.mp h) k)

end Idle

theorem TakesValues.bind (h : TakesValues r) (idle : ∀ a, Idle (f a)) : TakesValues (r >>= f) := by
  intro i b j read
  obtain ⟨a, j', first, last⟩ := bind_eq_ok.mp read
  obtain rfl := (idle a).rest_eq last
  obtain ⟨gap, t, blank, takes, ends, rfl⟩ := h i a j' first
  refine ⟨gap, t, blank, ⟨takes.value, fun gap rest blank ends ↦ ?_⟩, ends, rfl⟩
  rw [bind_ok (takes.read gap rest blank ends)]
  exact idle a _ b _ last rest

theorem Completes.bind (h : Completes b r) (idle : ∀ a, Idle (f a)) : Completes b (r >>= f) := by
  intro i c j read
  obtain ⟨a, j', first, last⟩ := bind_eq_ok.mp read
  obtain rfl := (idle a).rest_eq last
  obtain ⟨u, value, rfl, always⟩ := h i a j' first
  refine ⟨u, value, rfl, fun rest ↦ ?_⟩
  rw [bind_ok (always rest)]
  exact idle a _ c _ last rest

theorem TakesRest.bind (h : TakesRest r) (idle : ∀ a, Idle (f a)) : TakesRest (r >>= f) := by
  intro i b j read
  obtain ⟨a, j', first, last⟩ := bind_eq_ok.mp read
  obtain rfl := (idle a).rest_eq last
  obtain ⟨gap, gap', t, blank, blank', value, rfl, reads⟩ := h i a j' first
  refine ⟨gap, gap', t, blank, blank', value, rfl, fun rest apart ↦ ?_⟩
  rw [bind_ok (reads rest apart)]
  exact idle a _ b _ last rest

theorem TakesValues.inside {segment : Segment} (h : TakesValues r) :
    TakesValues (inside segment r) := by
  intro i a j read
  obtain ⟨gap, t, blank, takes, ends, rfl⟩ := h i a j (inside_eq_ok.mp read)
  exact ⟨gap, t, blank, ⟨takes.value, fun gap rest blank ends ↦
    inside_ok segment (takes.read gap rest blank ends)⟩, ends, rfl⟩

theorem TakesValues.rest (h : TakesValues r) : TakesRest (colon >>= fun _ ↦ r) := by
  intro i a j whole
  obtain ⟨⟨⟩, j', separator, read⟩ := bind_eq_ok.mp whole
  obtain ⟨gap, blank, rfl⟩ := of_colon_eq_ok separator
  obtain ⟨gap', t, blank', takes, -, rfl⟩ := h j' a j read
  refine ⟨gap, gap', t, blank, blank', takes.value, rfl, fun rest apart ↦ ?_⟩
  rw [bind_ok (colon_ok blank _)]
  exact takes.reads.read gap' rest blank' apart

/-! ## Values by their first byte -/

/-- What is done at the first byte of a value takes a value. -/
def TakesAt (k : Char → Reader α) (b : UInt8) : Prop :=
  ∀ i a j, k (Char.ofUInt8 b) (b :: i) = .ok (a, j) →
    ∃ t, Takes (start >>= k) t a ∧ Ends t j ∧ b :: i = t ++ j

section First

variable {k : Char → Reader α}

theorem takesValues_start (h : ∀ b, isBlank b = false → TakesAt k b) :
    TakesValues (start >>= k) := by
  intro i a j whole
  obtain ⟨c, i', first, read⟩ := bind_eq_ok.mp whole
  obtain ⟨gap, b, u, blank, solid, rfl, rfl, rfl⟩ := of_start_eq_ok first
  obtain ⟨t, takes, ends, same⟩ := h b solid u a j read
  exact ⟨gap, t, blank, takes, ends, congrArg (gap ++ ·) same⟩

theorem TakesAt.of_yields (h : Yields (k (Char.ofUInt8 b)) fun _ ↦ False) : TakesAt k b :=
  fun i a j read ↦ (h (b :: i) a j read).elim

theorem ends_of_begins (other : (Char.ofUInt8 b == '-' || isDigit (Char.ofUInt8 b)) = false)
    (u rest : List UInt8) : Ends (b :: u) rest := by
  rintro ⟨_, _, _, _, text⟩
  obtain ⟨b', u', same, -, start⟩ := text.start
  obtain ⟨rfl, -⟩ := List.cons.inj same
  simp only [Bool.or_eq_false_iff, beq_eq_false_iff_ne] at other
  exact (start.elim other.1 (Bool.eq_false_iff.mp other.2)).elim

/-- A value is taken where the other bytes of one are. -/
theorem Completes.takesAt (h : Completes b r) (solid : isBlank b = false)
    (other : (Char.ofUInt8 b == '-' || isDigit (Char.ofUInt8 b)) = false)
    (same : ∀ i, k (Char.ofUInt8 b) (b :: i) = r i) : TakesAt k b := by
  intro i a j read
  obtain ⟨u, value, rfl, always⟩ := h i a j ((same i).symm.trans read)
  refine ⟨b :: u, ⟨value, fun gap rest blank _ ↦ ?_⟩, ends_of_begins other u j, rfl⟩
  rw [List.cons_append, bind_ok (start_ok blank solid), same, always]

end First

theorem completes_string : Completes 0x22 string := by
  intro i s j read
  obtain ⟨u, quotation, rfl, always⟩ := of_string_eq_ok read
  exact ⟨u, .string ⟨u, quotation, rfl⟩, rfl, always⟩

/-! ## Lists -/

theorem of_nextItem_eq_ok_false {first : Bool} (h : nextItem first i = .ok (false, j)) :
    ∃ gap u, Blank gap ∧ j = 0x5d :: u ∧ i = gap ++ 0x5d :: u := by
  rw [nextItem] at h
  replace h := bind_eq_ok.mp h
  obtain ⟨c?, i', found, h⟩ := h
  split at h
  · cases h
  · obtain ⟨gap, u, blank, rfl, rfl⟩ := of_next_eq_ok_byte 0x5d found
    obtain ⟨-, rfl⟩ := pure_eq_ok.mp h
    exact ⟨gap, u, blank, rfl, rfl⟩
  · split at h
    · cases h
    split at h
    · replace h := bind_eq_ok.mp h
      obtain ⟨⟨⟩, i₁, -, h⟩ := h
      replace h := bind_eq_ok.mp h
      obtain ⟨c?, i₂, -, h⟩ := h
      split at h <;> cases h
    · cases h

theorem of_nextItem_first (h : nextItem true i = .ok (true, j)) :
    ∃ gap, Blank gap ∧ i = gap ++ j := by
  rw [nextItem] at h
  replace h := bind_eq_ok.mp h
  obtain ⟨c?, i', found, h⟩ := h
  split at h
  · cases h
  · cases h
  · obtain ⟨-, rfl⟩ := pure_eq_ok.mp h
    obtain ⟨gap, blank, rfl, -⟩ := of_next_eq_ok found
    exact ⟨gap, blank, rfl⟩

theorem of_nextItem_more (h : nextItem false i = .ok (true, j)) :
    ∃ gap gap', Blank gap ∧ Blank gap' ∧ i = gap ++ 0x2c :: (gap' ++ j) := by
  rw [nextItem] at h
  replace h := bind_eq_ok.mp h
  obtain ⟨c?, i', found, h⟩ := h
  split at h
  · cases h
  · cases h
  · rw [if_neg Bool.false_ne_true] at h
    split at h
    · rename_i isComma
      obtain rfl : _ = Char.ofUInt8 0x2c := isComma
      obtain ⟨gap, u, blank, rfl, rfl⟩ := of_next_eq_ok_byte 0x2c found
      rw [advance_bind] at h
      replace h := bind_eq_ok.mp h
      obtain ⟨c?, i', found, h⟩ := h
      split at h
      · cases h
      · cases h
      · obtain ⟨-, rfl⟩ := pure_eq_ok.mp h
        obtain ⟨gap', blank', rfl, -⟩ := of_next_eq_ok found
        exact ⟨gap, gap', blank, blank', rfl⟩
    · cases h

section Items

variable {item : Reader α} {as : List α}

/-- A turn of the loop over items: it takes an item, or it stops. -/
theorem of_items_succ_eq_ok {fuel index : Nat} {back : List α}
    (h : items item (fuel + 1) index back i = .ok (as, j)) :
    (∃ a i₁ i₂, nextItem (index = 0) i = .ok (true, i₁) ∧
      item i₁ = .ok (a, i₂) ∧ items item fuel (index + 1) (a :: back) i₂ = .ok (as, j)) ∨
    (∃ gap, Blank gap ∧ i = gap ++ 0x5d :: j ∧ as = back.reverse) := by
  rw [items] at h
  replace h := bind_eq_ok.mp h
  obtain ⟨more, i₁, found, h⟩ := h
  cases more with
  | true =>
    replace h := bind_eq_ok.mp h
    obtain ⟨a, i₂, read, h⟩ := h
    exact .inl ⟨a, i₁, i₂, found, inside_eq_ok.mp read, h⟩
  | false =>
    obtain ⟨gap, u, blank, rfl, rfl⟩ := of_nextItem_eq_ok_false found
    cases h
    exact .inr ⟨gap, blank, rfl, rfl⟩

theorem of_items_continues (takes : TakesValues item) {fuel index : Nat} {back : List α}
    (later : index ≠ 0) (h : items item fuel index back i = .ok (as, j)) :
    ∃ parts u as', Continues 0x5d parts u ∧
      List.Forall₂ (fun a t ↦ Takes item t a) as' parts ∧ as = back.reverse ++ as' ∧
        i = u ++ j := by
  induction fuel generalizing index back i with
  | zero => cases h
  | succ fuel ih =>
    rcases of_items_succ_eq_ok h with ⟨a, i₁, i₂, found, read, others⟩ | ⟨gap, blank, rfl, rfl⟩
    -- It is not the first item, so there is a comma before it.
    · rw [decide_eq_false later] at found
      obtain ⟨gap, gap₁, blank, blank₁, rfl⟩ := of_nextItem_more found
      obtain ⟨gap₂, t, blank₂, taken, -, rfl⟩ := takes i₁ a i₂ read
      obtain ⟨parts, u, as', continues, areTaken, rfl, rfl⟩ := ih (Nat.succ_ne_zero index) others
      exact ⟨t :: parts, _, a :: as', .more blank (blank₁.append blank₂) continues,
        .cons taken areTaken, by simp, by simp⟩
    · exact ⟨[], _, [], .stop blank, .nil, by simp, by simp⟩

theorem of_items_eq_ok (takes : TakesValues item) {fuel : Nat}
    (h : items item fuel 0 [] i = .ok (as, j)) :
    ∃ parts u, IsList parts (0x5b :: u) ∧ List.Forall₂ (fun a t ↦ Takes item t a) as parts ∧
      i = u ++ j := by
  cases fuel with
  | zero => cases h
  | succ fuel =>
    rcases of_items_succ_eq_ok h with ⟨a, i₁, i₂, found, read, others⟩ | ⟨gap, blank, rfl, rfl⟩
    · obtain ⟨gap₁, blank₁, rfl⟩ := of_nextItem_first found
      obtain ⟨gap₂, t, blank₂, taken, -, rfl⟩ := takes i₁ a i₂ read
      obtain ⟨parts, u, as', continues, areTaken, rfl, rfl⟩ :=
        of_items_continues takes (Nat.succ_ne_zero 0) others
      exact ⟨t :: parts, _, .parts (blank₁.append blank₂) continues, .cons taken areTaken, by simp⟩
    · exact ⟨[], _, .empty blank, .nil, by simp⟩

/-- **Items are the rest of a list.** -/
theorem completes_items (takes : TakesValues item) :
    Completes 0x5b (do items item (← remaining) 0 []) := by
  intro i as j h
  rw [remaining_bind] at h
  obtain ⟨parts, u, isList, taken, rfl⟩ := of_items_eq_ok takes h
  -- The loop takes the list that it took wherever the list stands.
  obtain ⟨tail, same, reads⟩ := items_ok isList (taken.imp fun _ _ t ↦ t.reads)
  obtain rfl := (List.cons.inj same).2
  have values : ∀ t ∈ parts, IsValue t := by
    intro t ht
    obtain ⟨a, -, takes⟩ := exists_of_forall₂ taken ht
    exact takes.value
  refine ⟨u, .list values isList, rfl, fun rest ↦ ?_⟩
  rw [bind_ok (remaining_eq _)]
  exact reads _ rest (by simp)

end Items

/-! ## Objects -/

theorem of_nextMember_eq_ok_false {first : Bool} (h : nextMember first i = .ok (false, j)) :
    ∃ gap u, Blank gap ∧ j = 0x7d :: u ∧ i = gap ++ 0x7d :: u := by
  rw [nextMember] at h
  replace h := bind_eq_ok.mp h
  obtain ⟨c?, i', found, h⟩ := h
  split at h
  · cases h
  · obtain ⟨gap, u, blank, rfl, rfl⟩ := of_next_eq_ok_byte 0x7d found
    obtain ⟨-, rfl⟩ := pure_eq_ok.mp h
    exact ⟨gap, u, blank, rfl, rfl⟩
  · split at h
    · split at h
      · replace h := bind_eq_ok.mp h
        obtain ⟨⟨⟩, i₁, -, h⟩ := h
        cases h
      · cases h
    split at h
    · replace h := bind_eq_ok.mp h
      obtain ⟨⟨⟩, i₁, -, h⟩ := h
      replace h := bind_eq_ok.mp h
      obtain ⟨c?, i₂, -, h⟩ := h
      split at h
      · cases h
      · replace h := bind_eq_ok.mp h
        obtain ⟨⟨⟩, i₃, -, h⟩ := h
        cases h
      · cases h
      · cases h
    · cases h

theorem of_nextMember_first (h : nextMember true i = .ok (true, j)) :
    ∃ gap, Blank gap ∧ i = gap ++ 0x22 :: j := by
  rw [nextMember] at h
  replace h := bind_eq_ok.mp h
  obtain ⟨c?, i', found, h⟩ := h
  split at h
  · cases h
  · cases h
  · rw [if_pos rfl] at h
    split at h
    · rename_i isQuote
      obtain rfl : _ = Char.ofUInt8 0x22 := isQuote
      obtain ⟨gap, u, blank, rfl, rfl⟩ := of_next_eq_ok_byte 0x22 found
      cases h
      exact ⟨gap, blank, rfl⟩
    · cases h

theorem of_nextMember_more (h : nextMember false i = .ok (true, j)) :
    ∃ gap gap', Blank gap ∧ Blank gap' ∧ i = gap ++ 0x2c :: (gap' ++ 0x22 :: j) := by
  rw [nextMember] at h
  replace h := bind_eq_ok.mp h
  obtain ⟨c?, i', found, h⟩ := h
  split at h
  · cases h
  · cases h
  · rw [if_neg Bool.false_ne_true] at h
    split at h
    · rename_i isComma
      obtain rfl : _ = Char.ofUInt8 0x2c := isComma
      obtain ⟨gap, u, blank, rfl, rfl⟩ := of_next_eq_ok_byte 0x2c found
      rw [advance_bind] at h
      replace h := bind_eq_ok.mp h
      obtain ⟨c?, i', found, h⟩ := h
      split at h
      · cases h
      · obtain ⟨gap', u', blank', rfl, rfl⟩ := of_next_eq_ok_byte 0x22 found
        cases h
        exact ⟨gap, gap', blank, blank', rfl⟩
      · cases h
      · cases h
    · cases h

section Members

variable {key : Reader κ} {step : κ → σ → Reader σ} {s s' : σ}

/-- What the bodies of a loop over members take, a key after its quote and the rest of the member,
is one member. -/
def TakesMembers (key : Reader κ) (step : κ → σ → Reader σ) : Prop :=
  ∀ k s s' i i' j, key i = .ok (k, i') → step k s i' = .ok (s', j) →
    ∃ u, IsEntry (0x22 :: u) ∧ Moves key step s (0x22 :: u) s' ∧ i = u ++ j

theorem takesMembers_string {step : String → σ → Reader σ} (h : ∀ k s, TakesRest (step k s)) :
    TakesMembers string step := by
  intro k s s' i i' j readKey readRest
  obtain ⟨key, quotation, rfl, always⟩ := of_string_eq_ok readKey
  obtain ⟨gap, gap', t, blank, blank', value, rfl, reads⟩ := h k s i' s' j readRest
  refine ⟨key ++ (gap ++ 0x3a :: (gap' ++ t)),
    ⟨0x22 :: key, t, ⟨key, quotation, rfl⟩, value, .mk blank blank'⟩,
    ⟨_, rfl, fun rest apart ↦ ⟨k, gap ++ 0x3a :: (gap' ++ (t ++ rest)), ?_, reads rest apart⟩⟩,
    by simp⟩
  simpa using always (gap ++ 0x3a :: (gap' ++ (t ++ rest)))

theorem of_members_succ_eq_ok {fuel : Nat} {first : Bool}
    (h : members key step (fuel + 1) first s i = .ok (s', j)) :
    (∃ k s₁ i₁ i₂ i₃, nextMember first i = .ok (true, i₁) ∧ key i₁ = .ok (k, i₂) ∧
      step k s i₂ = .ok (s₁, i₃) ∧ members key step fuel false s₁ i₃ = .ok (s', j)) ∨
    (∃ gap, Blank gap ∧ i = gap ++ 0x7d :: j ∧ s' = s) := by
  rw [members] at h
  replace h := bind_eq_ok.mp h
  obtain ⟨more, i₂, found, h⟩ := h
  replace found := bind_eq_ok.mp (inside_eq_ok.mp found)
  obtain ⟨isMore, i₁, found, keyed⟩ := found
  cases isMore with
  | true =>
    replace keyed := bind_eq_ok.mp keyed
    obtain ⟨k, i₂, readKey, last⟩ := keyed
    cases last
    replace h := bind_eq_ok.mp h
    obtain ⟨s₁, i₃, readRest, h⟩ := h
    exact .inl ⟨k, s₁, i₁, i₂, i₃, found, readKey, readRest, h⟩
  | false =>
    obtain ⟨gap, u, blank, rfl, rfl⟩ := of_nextMember_eq_ok_false found
    cases keyed
    cases h
    exact .inr ⟨gap, blank, rfl, rfl⟩

theorem of_members_continues (takes : TakesMembers key step) {fuel : Nat}
    (h : members key step fuel false s i = .ok (s', j)) :
    ∃ parts u, Continues 0x7d parts u ∧ (∀ p ∈ parts, IsEntry p) ∧
      Chain (Moves key step) s parts s' ∧ i = u ++ j := by
  induction fuel generalizing s i with
  | zero => cases h
  | succ fuel ih =>
    rcases of_members_succ_eq_ok h with
      ⟨k, s₁, i₁, i₂, i₃, found, readKey, readRest, others⟩ | ⟨gap, blank, rfl, rfl⟩
    · obtain ⟨gap, gap', blank, blank', rfl⟩ := of_nextMember_more found
      obtain ⟨m, entry, moves, rfl⟩ := takes k s s₁ i₁ i₂ i₃ readKey readRest
      obtain ⟨parts, u, continues, entries, chain, rfl⟩ := ih others
      exact ⟨(0x22 :: m) :: parts, _, .more blank blank' continues,
        List.forall_mem_cons.mpr ⟨entry, entries⟩, .cons moves chain, by simp⟩
    · exact ⟨[], _, .stop blank, by simp, .nil, by simp⟩

theorem of_members_eq_ok (takes : TakesMembers key step) {fuel : Nat}
    (h : members key step fuel true s i = .ok (s', j)) :
    ∃ parts u, Encloses 0x7b 0x7d parts (0x7b :: u) ∧ (∀ p ∈ parts, IsEntry p) ∧
      Chain (Moves key step) s parts s' ∧ i = u ++ j := by
  cases fuel with
  | zero => cases h
  | succ fuel =>
    rcases of_members_succ_eq_ok h with
      ⟨k, s₁, i₁, i₂, i₃, found, readKey, readRest, others⟩ | ⟨gap, blank, rfl, rfl⟩
    · obtain ⟨gap, blank, rfl⟩ := of_nextMember_first found
      obtain ⟨m, entry, moves, rfl⟩ := takes k s s₁ i₁ i₂ i₃ readKey readRest
      obtain ⟨parts, u, continues, entries, chain, rfl⟩ := of_members_continues takes others
      exact ⟨(0x22 :: m) :: parts, _, .parts blank continues,
        List.forall_mem_cons.mpr ⟨entry, entries⟩, .cons moves chain, by simp⟩
    · exact ⟨[], _, .empty blank, by simp, .nil, by simp⟩

/-- **Members are the rest of an object.** -/
theorem completes_members (takes : TakesMembers key step) (s : σ) :
    Completes 0x7b (do members key step (← remaining) true s) := by
  intro i s' j h
  rw [remaining_bind] at h
  obtain ⟨parts, u, encloses, entries, chain, rfl⟩ := of_members_eq_ok takes h
  obtain ⟨tail, same, reads⟩ := members_ok encloses chain
  obtain rfl := (List.cons.inj same).2
  refine ⟨u, Bracket.object.isValue encloses entries, rfl, fun rest ↦ ?_⟩
  rw [bind_ok (remaining_eq _)]
  exact reads _ rest (by simp)

theorem Completes.members_bind {f : σ → Reader α} (takes : TakesMembers key step) (s : σ)
    (idle : ∀ s', Idle (f s')) :
    Completes 0x7b (do
      let s' ← members key step (← remaining) true s
      f s') :=
  (completes_members takes s).bind idle

end Members

end IdlLinker.Json.Reader
