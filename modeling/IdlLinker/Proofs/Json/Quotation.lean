import IdlLinker.Proofs.Json.Word

/-!
# Where a string ends

The grammar of strings as far as it matters for where they end: `IsQuotation` is what comes after
an opening quote, up to and with the closing quote. What the bytes in between stand for does not
matter for this, nor whether they stand for anything.

A string that is read and one that is passed over both end there. The text that was taken is a
quotation, and a reader that took it once takes it in every other place and gives the same.

Reading a string resolves its escapes and may fail in ways in which passing over it cannot, at a
lone surrogate or at bytes that are no text. So the grammar of escapes is the coarser one, of what
is passed over, and a string that is read belongs to it because each escape that can be resolved
does.
-/

namespace IdlLinker.Json

open Reader

/-- A string after its opening quote. -/
inductive IsQuotation : List UInt8 → Prop where
  | close : IsQuotation [0x22]
  | plain {b : UInt8} {u : List UInt8} (h : Plain b) (others : IsQuotation u) :
      IsQuotation (b :: u)
  /-- A backslash and a letter. -/
  | short {b : UInt8} {c : Char} {u : List UInt8} (h : shortEscape? (Char.ofUInt8 b) = some c)
      (others : IsQuotation u) : IsQuotation (0x5c :: b :: u)
  /-- A backslash, `u` and four hexadecimal digits. -/
  | unit {d u : List UInt8} {n : Nat} (h : Hexadecimal d n) (others : IsQuotation u) :
      IsQuotation (0x5c :: 0x75 :: (d ++ u))

/-- A string with its quotes, whatever its bytes stand for. -/
def IsQuoted (t : List UInt8) : Prop := ∃ u, IsQuotation u ∧ t = 0x22 :: u

variable {i j t u : List UInt8}

theorem IsQuotation.plains {bs : List UInt8} (h : ∀ b ∈ bs, Plain b) (others : IsQuotation u) :
    IsQuotation (bs ++ u) := by
  induction bs with
  | nil => exact others
  | cons b bs ih =>
    obtain ⟨first, later⟩ := List.forall_mem_cons.mp h
    exact .plain first (ih later)

theorem IsString.isQuoted (h : IsString t) : IsQuoted t := by
  obtain ⟨glyphs, all, rfl⟩ := h
  refine ⟨_, ?_, rfl⟩
  induction glyphs with
  | nil => exact .close
  | cons g glyphs ih =>
    obtain ⟨first, others⟩ := List.forall_mem_cons.mp all
    rw [List.flatten_cons, List.append_assoc]
    -- What is written of the first glyph comes before a quotation.
    have quotation := ih others
    generalize glyphs.flatten ++ [0x22] = u at quotation
    cases first with
    | @plain c low quote slash =>
      exact .plains (fun b hb ↦ plain_of_mem_utf8 low quote slash hb) quotation
    | short h => exact .short h quotation
    | unit h => exact .unit h quotation

/-- A loop that takes a text and then stops takes it in every place, with as many turns as there are
bytes left. -/
theorem Turns.stops {α : Type} {loop : Nat → Reader α} {a : α}
    (h : Turns loop u fun _ ↦ pure a) (rest : List UInt8) {fuel : Nat}
    (le : (u ++ rest).length ≤ fuel) : loop fuel (u ++ rest) = .ok (a, rest) := by
  obtain ⟨left, -, same⟩ := h.enough le
  exact same

/-! ## Passing over a string -/

theorem IsQuotation.turns_skip (h : IsQuotation u) : Turns skipString u fun _ ↦ pure () := by
  induction h with
  | close =>
    refine ⟨1, Nat.le_refl 1, fun fuel rest ↦ ?_⟩
    rw [List.singleton_append, skipString, bind_ok (get_eq _)]
    dsimp only
    rw [bind_ok (advance_cons _ _), if_pos (by decide)]
  | plain h _ ih => exact (turns_skip_plain h).trans ih
  | short h _ ih => exact (turns_skip_short h).trans ih
  | unit h _ ih => exact (turns_skip_unit h).trans ih

namespace Reader

theorem of_hexUnit_eq_ok {n : Nat} (h : hexUnit i = .ok (n, j)) :
    ∃ d, Hexadecimal d n ∧ i = d ++ j := by
  unfold hexUnit at h
  split at h
  · split at h
    · rename_i ha hb hc hd
      cases h
      exact ⟨_, .mk ha hb hc hd, rfl⟩
    · cases h
  · cases h

/-- The rest of an escape: what may come after it in a string may come after the backslash and
it. -/
def IsEscape (e : List UInt8) : Prop :=
  ∀ u, IsQuotation u → IsQuotation (0x5c :: (e ++ u))

theorem of_skipEscaped_eq_ok (h : skipEscaped i = .ok ((), j)) :
    ∃ e, IsEscape e ∧ i = e ++ j := by
  rw [skipEscaped, peek_bind] at h
  rcases i with - | ⟨b, i⟩
  · cases h
  · simp only [List.head?_cons, Option.map_some, advance_bind] at h
    split at h
    · rename_i isUnit
      obtain rfl : b = 0x75 := ofUInt8_inj.mp isUnit
      replace h := bind_eq_ok.mp h
      obtain ⟨n, i', read, h⟩ := h
      obtain ⟨d, digits, rfl⟩ := of_hexUnit_eq_ok read
      obtain ⟨-, rfl⟩ := pure_eq_ok.mp h
      exact ⟨0x75 :: d, fun u hu ↦ .unit digits hu, rfl⟩
    · split at h
      · cases h
      · rename_i known
        obtain ⟨-, rfl⟩ := pure_eq_ok.mp h
        obtain ⟨c, hc⟩ := Option.ne_none_iff_exists'.mp (by simpa using known)
        exact ⟨[b], fun u hu ↦ .short hc hu, rfl⟩

/-- **Where a string is passed over, a quotation is taken.** -/
theorem of_skipString_eq_ok {fuel : Nat} (h : skipString fuel i = .ok ((), j)) :
    ∃ u, IsQuotation u ∧ i = u ++ j := by
  induction fuel generalizing i with
  | zero => cases h
  | succ fuel ih =>
    rw [skipString, get_bind] at h
    rcases i with - | ⟨b, i⟩
    · cases h
    · dsimp only at h
      rw [advance_bind] at h
      split at h
      · rename_i isQuote
        obtain rfl : b = 0x22 := ofUInt8_inj.mp isQuote
        obtain ⟨-, rfl⟩ := pure_eq_ok.mp h
        exact ⟨[0x22], .close, rfl⟩
      split at h
      · rename_i isSlash
        obtain rfl : b = 0x5c := ofUInt8_inj.mp isSlash
        replace h := bind_eq_ok.mp h
        obtain ⟨⟨⟩, i'', escape, h⟩ := h
        obtain ⟨e, isEscape, rfl⟩ := of_skipEscaped_eq_ok escape
        obtain ⟨u, hu, rfl⟩ := ih h
        exact ⟨0x5c :: (e ++ u), isEscape u hu, by simp⟩
      split at h
      · cases h
      · rename_i quote slash low
        obtain ⟨u, hu, rfl⟩ := ih h
        refine ⟨b :: u, .plain ⟨?_, quote, slash⟩ hu, rfl⟩
        exact UInt8.le_iff_toNat_le.mp (UInt8.not_lt.mp low)

/-! ## Reading a string -/

theorem of_secondEscape_eq_ok {c : Char} (h : secondEscape c i = .ok ((), j)) :
    ∃ b, Char.ofUInt8 b = c ∧ i = b :: j := by
  rw [secondEscape, peek_bind] at h
  rcases i with - | ⟨b, i⟩
  · cases h
  · simp only [List.head?_cons, Option.map_some] at h
    split at h
    · cases h
      exact ⟨b, ‹_›, rfl⟩
    · cases h

/-- An escape with numbers: it ends after the first one or after the second, and what it stands for
is in the numbers. -/
theorem of_escapedUnits_eq_ok {c : Char} (h : escapedUnits i = .ok (c, j)) :
    ∃ e, IsEscape (0x75 :: e) ∧ i = e ++ j ∧
      ∀ rest, escapedUnits (e ++ rest) = .ok (c, rest) := by
  replace h := bind_eq_ok.mp h
  obtain ⟨m, i', first, h⟩ := h
  obtain ⟨d, digits, rfl⟩ := of_hexUnit_eq_ok first
  split at h
  · cases h
  rename_i notLow
  split at h
  · rename_i high
    -- The first half of a pair is nothing without the second.
    replace h := bind_eq_ok.mp h
    obtain ⟨⟨⟩, i₁, slash, h⟩ := h
    replace h := bind_eq_ok.mp h
    obtain ⟨⟨⟩, i₂, letter, h⟩ := h
    replace h := bind_eq_ok.mp h
    obtain ⟨n, i₃, second, h⟩ := h
    obtain ⟨b, isSlash, rfl⟩ := of_secondEscape_eq_ok slash
    obtain rfl : b = 0x5c := ofUInt8_inj.mp isSlash
    obtain ⟨b, isLetter, rfl⟩ := of_secondEscape_eq_ok letter
    obtain rfl : b = 0x75 := ofUInt8_inj.mp isLetter
    obtain ⟨d', digits', rfl⟩ := of_hexUnit_eq_ok second
    split at h
    · rename_i low
      obtain ⟨rfl, rfl⟩ := pure_eq_ok.mp h
      refine ⟨d ++ 0x5c :: 0x75 :: d', fun u hu ↦ ?_, by simp, fun rest ↦ ?_⟩
      · have pair := IsQuotation.unit digits (.unit digits' hu)
        simpa using pair
      · exact escapedUnits_pair digits high digits' low rest
    · cases h
  · rename_i notHigh
    obtain ⟨rfl, rfl⟩ := pure_eq_ok.mp h
    exact ⟨d, fun u hu ↦ .unit digits hu, rfl, escapedUnits_unit digits
      (Bool.eq_false_iff.mpr notHigh) (Bool.eq_false_iff.mpr notLow)⟩

theorem of_escaped_eq_ok {c : Char} (h : escaped i = .ok (c, j)) :
    ∃ e, IsEscape e ∧ i = e ++ j ∧ ∀ rest, escaped (e ++ rest) = .ok (c, rest) := by
  rw [escaped, peek_bind] at h
  rcases i with - | ⟨b, i⟩
  · cases h
  · simp only [List.head?_cons, Option.map_some, advance_bind] at h
    cases known : shortEscape? (Char.ofUInt8 b) with
    | some d =>
      rw [known] at h
      obtain ⟨rfl, rfl⟩ := pure_eq_ok.mp h
      exact ⟨[b], fun u hu ↦ .short known hu, rfl, escaped_short known⟩
    | none =>
      rw [known] at h
      dsimp only at h
      split at h
      · rename_i isUnit
        obtain rfl : b = 0x75 := ofUInt8_inj.mp isUnit
        obtain ⟨e, isEscape, rfl, units⟩ := of_escapedUnits_eq_ok h
        exact ⟨0x75 :: e, isEscape, rfl, escaped_units units⟩
      · cases h

/-- **Where the bytes of a string are read, a quotation is taken**, and it is taken in every place
as the same bytes. -/
theorem of_stringBytes_eq_ok {fuel : Nat} {back bs : List UInt8}
    (h : stringBytes fuel back i = .ok (bs, j)) :
    ∃ u, IsQuotation u ∧ i = u ++ j ∧ Turns (stringBytes · back) u fun _ ↦ pure bs := by
  induction fuel generalizing back i with
  | zero => cases h
  | succ fuel ih =>
    rw [stringBytes, get_bind] at h
    rcases i with - | ⟨b, i⟩
    · cases h
    · dsimp only at h
      rw [advance_bind] at h
      split at h
      · rename_i isQuote
        obtain rfl : b = 0x22 := ofUInt8_inj.mp isQuote
        obtain ⟨rfl, rfl⟩ := pure_eq_ok.mp h
        refine ⟨[0x22], .close, rfl, 1, Nat.le_refl 1, fun fuel rest ↦ ?_⟩
        change stringBytes (fuel + 1) back (0x22 :: rest) = _
        rw [stringBytes, bind_ok (get_eq _)]
        dsimp only
        rw [bind_ok (advance_cons _ _), if_pos (by decide)]
      split at h
      · rename_i isSlash
        obtain rfl : b = 0x5c := ofUInt8_inj.mp isSlash
        replace h := bind_eq_ok.mp h
        obtain ⟨c, i'', escape, h⟩ := h
        obtain ⟨e, isEscape, rfl, reads⟩ := of_escaped_eq_ok escape
        obtain ⟨u, hu, rfl, turns⟩ := ih h
        exact ⟨0x5c :: (e ++ u), isEscape u hu, by simp, (turns_escaped reads back).trans turns⟩
      split at h
      · cases h
      · rename_i quote slash low
        obtain ⟨u, hu, rfl, turns⟩ := ih h
        have plain : Plain b :=
          ⟨UInt8.le_iff_toNat_le.mp (UInt8.not_lt.mp low), quote, slash⟩
        exact ⟨b :: u, .plain plain hu, rfl, (turns_plain plain back).trans turns⟩

/-- A string that is read is a quotation, and is read in every place as the same text. -/
theorem of_string_eq_ok {s : String} (h : string i = .ok (s, j)) :
    ∃ u, IsQuotation u ∧ i = u ++ j ∧ ∀ rest, string (u ++ rest) = .ok (s, rest) := by
  rw [string, remaining_bind] at h
  replace h := bind_eq_ok.mp h
  obtain ⟨bs, i', read, h⟩ := h
  obtain ⟨u, hu, rfl, turns⟩ := of_stringBytes_eq_ok read
  cases valid : String.fromUTF8? ⟨bs.toArray⟩ with
  | none =>
    rw [valid] at h
    cases h
  | some s' =>
    rw [valid] at h
    obtain ⟨rfl, rfl⟩ := pure_eq_ok.mp h
    refine ⟨u, hu, rfl, fun rest ↦ ?_⟩
    rw [string, bind_ok (remaining_eq _), bind_ok (turns.stops rest (Nat.le_refl _)), valid]
    rfl

end Reader

end IdlLinker.Json
