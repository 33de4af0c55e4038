import IdlLinker.Json.Value
import IdlLinker.Proofs.Json.Reader
import Mathlib.Data.List.Forall2

/-!
# Strings in a document

`IsText s t` says that the string `t` stands for the text `s`: it has one glyph for each character,
which is the character itself or an escape. Such a string is read byte by byte as `s`, because the
bytes of a character that is not escaped are never mistaken for a quote, a backslash or a control
character: those of a character beyond ASCII are all beyond ASCII. What is written for a text is the
string in which only the quote, the backslash and the control characters are escaped.

A string that is passed over may be any string of the grammar (`IsString`), surrogates without their
pairs included.

## Turns of a loop

The loops of the reader are bounded, and one turn takes at least one byte. `Turns loop t loop'` says
that `loop` takes `t` off the input in no more turns than `t` has bytes, and goes on as `loop'`.
-/

namespace IdlLinker.Json

open Reader

/-! ## The bytes of a text -/

def bytes (s : String) : List UInt8 := s.toUTF8.toList

theorem toList_loop (bs : ByteArray) (n i : Nat) (back : List UInt8) (h : bs.size = n + i) :
    ByteArray.toList.loop bs i back = back.reverse ++ bs.data.toList.drop i := by
  induction n generalizing i back with
  | zero =>
    rw [ByteArray.toList.loop, if_neg (by omega), List.drop_eq_nil_of_le, List.append_nil]
    simpa using (show bs.data.size ≤ i by simpa using by omega)
  | succ n ih =>
    have lt : i < bs.data.toList.length := by
      simpa using (show i < bs.data.size by simpa using by omega)
    rw [ByteArray.toList.loop, if_pos (by omega), ih (i + 1) _ (by omega),
      List.drop_eq_getElem_cons lt, List.reverse_cons, List.append_assoc, List.singleton_append]
    congr 2
    simpa [ByteArray.get!] using getElem!_pos bs.data i (by simpa using lt)

theorem bytes_eq (s : String) : bytes s = s.toList.flatMap String.utf8EncodeChar := by
  have list : s.toUTF8.toList = s.toUTF8.data.toList := by
    simpa [ByteArray.toList] using toList_loop s.toUTF8 s.toUTF8.size 0 [] rfl
  rw [bytes, list, String.toUTF8_eq_toByteArray, ← String.utf8Encode_toList, List.utf8Encode]
  simp

theorem bytes_append (s t : String) : bytes (s ++ t) = bytes s ++ bytes t := by
  simp [bytes_eq]

@[simp] theorem bytes_empty : bytes "" = [] := by
  simp [bytes_eq]

theorem bytes_ofList (cs : List Char) :
    bytes (String.ofList cs) = cs.flatMap String.utf8EncodeChar := by
  simp [bytes_eq]

theorem bytes_singleton (c : Char) : bytes (String.singleton c) = String.utf8EncodeChar c := by
  simp [bytes_eq]

theorem fromUTF8?_bytes (s : String) :
    String.fromUTF8? ⟨(s.toList.flatMap String.utf8EncodeChar).toArray⟩ = some s := by
  have array :
      (⟨(s.toList.flatMap String.utf8EncodeChar).toArray⟩ : ByteArray) = s.toByteArray := by
    rw [← String.utf8Encode_toList, List.utf8Encode]
    exact ByteArray.ext (by simp)
  rw [array, String.fromUTF8?, dif_pos s.isValidUTF8]
  rfl

/-! ## Plain bytes -/

theorem toNat_ofUInt8 (b : UInt8) : (Char.ofUInt8 b).toNat = b.toNat := rfl

/-- A byte that stands for itself in a string. -/
def Plain (b : UInt8) : Prop :=
  0x20 ≤ b.toNat ∧ Char.ofUInt8 b ≠ '"' ∧ Char.ofUInt8 b ≠ '\\'

theorem plain_of_mem_utf8 {c : Char} (low : 0x20 ≤ c.toNat) (quote : c ≠ '"') (slash : c ≠ '\\')
    {b : UInt8} (h : b ∈ String.utf8EncodeChar c) : Plain b := by
  have beyond : ∀ n : Nat, 0x80 ≤ n → n < 0x100 → Plain (UInt8.ofNat n) := by
    intro n least greatest
    have toNat : (Char.ofUInt8 (UInt8.ofNat n)).toNat = n := by
      simpa [toNat_ofUInt8] using greatest
    refine ⟨by rw [← toNat_ofUInt8]; omega, ?_, ?_⟩ <;>
    · intro eq
      rw [eq] at toNat
      simp at toNat
      omega
  rw [String.utf8EncodeChar] at h
  split at h
  · rename_i ascii
    obtain rfl := List.mem_singleton.mp h
    have self : Char.ofUInt8 (UInt8.ofNat c.val.toNat) = c := by
      refine Char.toNat_inj.mp ?_
      rw [toNat_ofUInt8, UInt8.toNat_ofNat']
      exact Nat.mod_eq_of_lt (show c.val.toNat < 256 by omega)
    rw [Plain, ← toNat_ofUInt8, self]
    exact ⟨low, quote, slash⟩
  · split at h
    · simp only [List.mem_cons, List.not_mem_nil, or_false] at h
      rcases h with rfl | rfl <;> exact beyond _ (by omega) (by omega)
    · split at h
      · simp only [List.mem_cons, List.not_mem_nil, or_false] at h
        rcases h with rfl | rfl | rfl <;> exact beyond _ (by omega) (by omega)
      · simp only [List.mem_cons, List.not_mem_nil, or_false] at h
        rcases h with rfl | rfl | rfl | rfl <;> exact beyond _ (by omega) (by omega)

/-! ## Turns of a loop -/

/-- A bounded loop takes a text in no more turns than it has bytes, and goes on as another. -/
def Turns {α : Type} (loop : Nat → Reader α) (t : List UInt8) (loop' : Nat → Reader α) : Prop :=
  ∃ n ≤ t.length, ∀ fuel rest, loop (fuel + n) (t ++ rest) = loop' fuel rest

namespace Turns

variable {α : Type} {loop loop' loop'' : Nat → Reader α} {t u : List UInt8}

theorem refl (loop : Nat → Reader α) : Turns loop [] loop := ⟨0, Nat.le_refl 0, fun _ _ ↦ rfl⟩

theorem trans (first : Turns loop t loop') (second : Turns loop' u loop'') :
    Turns loop (t ++ u) loop'' := by
  obtain ⟨n, hn, first⟩ := first
  obtain ⟨m, hm, second⟩ := second
  refine ⟨m + n, by rw [List.length_append]; omega, fun fuel rest ↦ ?_⟩
  rw [← Nat.add_assoc, List.append_assoc, first, second]

/-- A loop that is given as many turns as there are bytes has enough of them. -/
theorem enough (h : Turns loop t loop') {fuel : Nat} {rest : List UInt8}
    (le : (t ++ rest).length ≤ fuel) :
    ∃ left, rest.length ≤ left ∧ loop fuel (t ++ rest) = loop' left rest := by
  obtain ⟨n, hn, h⟩ := h
  rw [List.length_append] at le
  refine ⟨fuel - n, by omega, ?_⟩
  rw [← h, Nat.sub_add_cancel (by omega)]

end Turns

/-! ## Reading a string -/

theorem turns_plain {b : UInt8} (h : Plain b) (back : List UInt8) :
    Turns (stringBytes · back) [b] (stringBytes · (b :: back)) := by
  refine ⟨1, Nat.le_refl 1, fun fuel rest ↦ ?_⟩
  obtain ⟨low, quote, slash⟩ := h
  change stringBytes (fuel + 1) back (b :: rest) = _
  rw [stringBytes, bind_ok (get_eq _)]
  dsimp only
  rw [bind_ok (advance_cons _ _), if_neg quote, if_neg slash, if_neg fun lt ↦ ?_]
  exact absurd (UInt8.lt_iff_toNat_lt.mp lt) (Nat.not_lt.mpr low)

theorem turns_plains {bs : List UInt8} (h : ∀ b ∈ bs, Plain b) (back : List UInt8) :
    Turns (stringBytes · back) bs (stringBytes · (bs.reverse ++ back)) := by
  induction bs generalizing back with
  | nil => exact .refl _
  | cons b bs ih =>
    obtain ⟨first, others⟩ := List.forall_mem_cons.mp h
    rw [List.reverse_cons, List.append_assoc]
    exact (turns_plain first back).trans (ih others (b :: back))

theorem turns_escaped {e : List UInt8} {c : Char}
    (h : ∀ rest, escaped (e ++ rest) = .ok (c, rest)) (back : List UInt8) :
    Turns (stringBytes · back) (0x5c :: e)
      (stringBytes · ((String.utf8EncodeChar c).reverse ++ back)) := by
  refine ⟨1, by simp, fun fuel rest ↦ ?_⟩
  change stringBytes (fuel + 1) back (0x5c :: (e ++ rest)) = _
  rw [stringBytes, bind_ok (get_eq _)]
  dsimp only
  rw [bind_ok (advance_cons _ _), if_neg (by decide), if_pos (by decide),
    bind_ok (h rest)]

/-! ## Characters of a string -/

/-- Four hexadecimal digits, and the number they make. -/
inductive Hexadecimal : List UInt8 → Nat → Prop where
  | mk {a b c d : UInt8} {k l m n : Nat} (ha : hexDigit? a = some k) (hb : hexDigit? b = some l)
      (hc : hexDigit? c = some m) (hd : hexDigit? d = some n) :
      Hexadecimal [a, b, c, d] (((k * 16 + l) * 16 + m) * 16 + n)

theorem Hexadecimal.unit_ok {u : List UInt8} {n : Nat} (h : Hexadecimal u n) (rest : List UInt8) :
    hexUnit (u ++ rest) = .ok (n, rest) := by
  obtain ⟨ha, hb, hc, hd⟩ := h
  simp only [List.cons_append, List.nil_append, hexUnit, ha, hb, hc, hd]

/-- A text stands for a character inside a string. -/
inductive Stands : List UInt8 → Char → Prop where
  /-- The character by itself: neither the quote, nor the backslash, nor a control character. -/
  | plain {c : Char} (low : 0x20 ≤ c.toNat) (quote : c ≠ '"') (slash : c ≠ '\\') :
      Stands (String.utf8EncodeChar c) c
  /-- A backslash and a letter. -/
  | short {b : UInt8} {c : Char} (h : shortEscape? (Char.ofUInt8 b) = some c) : Stands [0x5c, b] c
  /-- A backslash, `u` and the number of the character. -/
  | unit {u : List UInt8} {n : Nat} (h : Hexadecimal u n) (notHigh : isHighSurrogate n = false)
      (notLow : isLowSurrogate n = false) : Stands (0x5c :: 0x75 :: u) (Char.ofNat n)
  /-- A surrogate pair. -/
  | pair {u v : List UInt8} {m n : Nat} (h : Hexadecimal u m) (high : isHighSurrogate m = true)
      (h' : Hexadecimal v n) (low : isLowSurrogate n = true) :
      Stands (0x5c :: 0x75 :: (u ++ 0x5c :: 0x75 :: v))
        (Char.ofNat (0x10000 + (m - 0xd800) * 0x400 + (n - 0xdc00)))

/-- A string, with its quotes, stands for a text. -/
def IsText (s : String) (t : List UInt8) : Prop :=
  ∃ glyphs, List.Forall₂ Stands glyphs s.toList ∧ t = 0x22 :: (glyphs.flatten ++ [0x22])

theorem escaped_short {b : UInt8} {c : Char} (h : shortEscape? (Char.ofUInt8 b) = some c)
    (rest : List UInt8) : escaped ([b] ++ rest) = .ok (c, rest) := by
  rw [List.singleton_append, escaped, bind_ok (peek_cons _ _)]
  dsimp only
  rw [bind_ok (advance_cons _ _), h]
  rfl

theorem escaped_units {u : List UInt8} {c : Char}
    (h : ∀ rest, escapedUnits (u ++ rest) = .ok (c, rest)) (rest : List UInt8) :
    escaped (0x75 :: u ++ rest) = .ok (c, rest) := by
  rw [List.cons_append, escaped, bind_ok (peek_cons _ _)]
  dsimp only
  rw [bind_ok (advance_cons _ _), show shortEscape? (Char.ofUInt8 0x75) = none from rfl]
  exact h rest

theorem escapedUnits_unit {u : List UInt8} {n : Nat} (h : Hexadecimal u n)
    (notHigh : isHighSurrogate n = false) (notLow : isLowSurrogate n = false) (rest : List UInt8) :
    escapedUnits (u ++ rest) = .ok (Char.ofNat n, rest) := by
  rw [escapedUnits, bind_ok (h.unit_ok rest), notLow, notHigh]
  rfl

theorem escapedUnits_pair {u v : List UInt8} {m n : Nat} (h : Hexadecimal u m)
    (high : isHighSurrogate m = true) (h' : Hexadecimal v n) (low : isLowSurrogate n = true)
    (rest : List UInt8) :
    escapedUnits (u ++ 0x5c :: 0x75 :: v ++ rest) =
      .ok (Char.ofNat (0x10000 + (m - 0xd800) * 0x400 + (n - 0xdc00)), rest) := by
  have notLow : isLowSurrogate m = false := by
    simp only [isHighSurrogate, isLowSurrogate, Bool.and_eq_true, decide_eq_true_eq,
      Bool.and_eq_false_iff, decide_eq_false_iff_not] at high ⊢
    omega
  have slash : secondEscape '\\' (0x5c :: 0x75 :: (v ++ rest)) = .ok ((), 0x75 :: (v ++ rest)) :=
    rfl
  have letter : secondEscape 'u' (0x75 :: (v ++ rest)) = .ok ((), v ++ rest) := rfl
  rw [List.append_assoc, List.cons_append, List.cons_append, escapedUnits, bind_ok (h.unit_ok _),
    notLow, high, if_neg Bool.false_ne_true, if_pos rfl, bind_ok slash, bind_ok letter,
    bind_ok (h'.unit_ok rest), low]
  rfl

/-- **What stands for a character is taken as that character.** -/
theorem Stands.turns {g : List UInt8} {c : Char} (h : Stands g c) (back : List UInt8) :
    Turns (stringBytes · back) g (stringBytes · ((String.utf8EncodeChar c).reverse ++ back)) := by
  cases h with
  | plain low quote slash =>
    exact turns_plains (fun b hb ↦ plain_of_mem_utf8 low quote slash hb) back
  | short h => exact turns_escaped (escaped_short h) back
  | unit h notHigh notLow =>
    exact turns_escaped (escaped_units (escapedUnits_unit h notHigh notLow)) back
  | pair h high h' low => exact turns_escaped (escaped_units (escapedUnits_pair h high h' low)) back

theorem turns_glyphs {glyphs : List (List UInt8)} {cs : List Char}
    (h : List.Forall₂ Stands glyphs cs) (back : List UInt8) :
    Turns (stringBytes · back) glyphs.flatten
      (stringBytes · ((cs.flatMap String.utf8EncodeChar).reverse ++ back)) := by
  induction h generalizing back with
  | nil => exact .refl _
  | @cons g c glyphs cs first _ ih =>
    rw [List.flatten_cons, List.flatMap_cons, List.reverse_append, List.append_assoc]
    exact (first.turns back).trans (ih ((String.utf8EncodeChar c).reverse ++ back))

/-- **A string is read as the text it stands for**, whatever comes after its closing quote. -/
theorem IsText.exists_string_ok {s : String} {t : List UInt8} (h : IsText s t) :
    ∃ u, t = 0x22 :: u ∧ ∀ rest, string (u ++ rest) = .ok (s, rest) := by
  obtain ⟨glyphs, stands, rfl⟩ := h
  refine ⟨_, rfl, fun rest ↦ ?_⟩
  rw [List.append_assoc, List.singleton_append]
  obtain ⟨left, le, h⟩ := (turns_glyphs stands []).enough
    (Nat.le_refl (glyphs.flatten ++ 0x22 :: rest).length)
  have close : stringBytes left ((s.toList.flatMap String.utf8EncodeChar).reverse ++ [])
      (0x22 :: rest) = .ok (s.toList.flatMap String.utf8EncodeChar, rest) := by
    obtain ⟨left, rfl⟩ := Nat.exists_eq_add_one_of_ne_zero (n := left) (by simp at le; omega)
    rw [stringBytes, bind_ok (get_eq _)]
    dsimp only
    rw [bind_ok (advance_cons _ _), if_pos (by decide), List.append_nil,
      List.reverse_reverse]
    rfl
  rw [string, bind_ok (remaining_eq _), bind_ok (h.trans close), fromUTF8?_bytes]
  rfl

/-! ## Written strings -/

/-- The byte of the last hexadecimal digit of a number. -/
def hexByte (n : Nat) : UInt8 := (Nat.digitChar (n % 16)).toUInt8

theorem hexDigit?_hexByte (n : Nat) : hexDigit? (hexByte n) = some (n % 16) := by
  have digit : ∀ d : Fin 16, hexDigit? (Nat.digitChar d).toUInt8 = some d.val := by decide
  exact digit ⟨n % 16, Nat.mod_lt n (by decide)⟩

theorem bytes_hexadecimal {n : Nat} (h : n < 0x20) :
    bytes (escape.hexadecimal n) = [0x30, 0x30, hexByte (n / 16), hexByte n] := by
  have digits : ∀ n : Fin 0x20,
      (List.replicate (4 - (Nat.toDigits 16 n).length) '0' ++ Nat.toDigits 16 n).flatMap
        String.utf8EncodeChar = [0x30, 0x30, hexByte (n / 16), hexByte n] := by decide
  rw [escape.hexadecimal, bytes_ofList]
  exact digits ⟨n, h⟩

theorem hexadecimal_hexadecimal {n : Nat} (h : n < 0x20) :
    Hexadecimal (bytes (escape.hexadecimal n)) n := by
  have zero : hexDigit? 0x30 = some 0 := by decide
  have value : ((0 * 16 + 0) * 16 + n / 16 % 16) * 16 + n % 16 = n := by omega
  have digits := Hexadecimal.mk zero zero (hexDigit?_hexByte (n / 16)) (hexDigit?_hexByte n)
  rwa [value, ← bytes_hexadecimal h] at digits

theorem bytes_unit : bytes "\\u" = [0x5c, 0x75] := bytes_eq "\\u"

/-- What is written for a character stands for it. -/
theorem stands_escape (c : Char) : Stands (bytes (escape c)) c := by
  rw [bytes_eq]
  unfold escape
  split
  · exact .short (b := 0x22) rfl
  · exact .short (b := 0x5c) rfl
  · exact .short (b := 0x62) rfl
  · exact .short (b := 0x66) rfl
  · exact .short (b := 0x6e) rfl
  · exact .short (b := 0x72) rfl
  · exact .short (b := 0x74) rfl
  · rename_i quote slash _ _ _ _ _
    rw [← bytes_eq]
    split
    · rename_i control
      have noSurrogate : isHighSurrogate c.toNat = false ∧ isLowSurrogate c.toNat = false := by
        simp only [isHighSurrogate, isLowSurrogate, Bool.and_eq_false_iff, decide_eq_false_iff_not]
        omega
      have escaped := Stands.unit (hexadecimal_hexadecimal control) noSurrogate.1 noSurrogate.2
      rw [bytes_append, bytes_unit]
      rwa [Char.ofNat_toNat] at escaped
    · rename_i high
      rw [bytes_singleton]
      exact .plain (by omega) quote slash

/-- What stands between the quotes of a written string. -/
def body (s : String) : List UInt8 := s.toList.flatMap fun c ↦ bytes (escape c)

theorem bytes_quoted (s : String) : bytes (quoted s) = 0x22 :: (body s ++ [0x22]) := by
  have fold : ∀ (cs : List Char) (out : String),
      bytes (cs.foldl (fun out c ↦ out ++ escape c) out) =
        bytes out ++ cs.flatMap fun c ↦ bytes (escape c) := by
    intro cs
    induction cs with
    | nil => simp
    | cons c cs ih =>
      intro out
      rw [List.foldl_cons, ih, bytes_append, List.flatMap_cons, List.append_assoc]
  have quote : bytes "\"" = [0x22] := bytes_eq "\""
  rw [quoted, bytes_append, bytes_append, fold, bytes_empty, quote]
  rfl

/-- **What is written for a text stands for it.** -/
theorem isText_quoted (s : String) : IsText s (bytes (quoted s)) := by
  refine ⟨s.toList.map fun c ↦ bytes (escape c), ?_, by rw [bytes_quoted, body, List.flatMap_def]⟩
  rw [List.forall₂_map_left_iff, List.forall₂_same]
  exact fun c _ ↦ stands_escape c

/-! ## Passing over a string -/

/-- A character as it may stand in a string: by itself, or escaped. -/
inductive Glyph : List UInt8 → Prop where
  /-- By itself: neither the quote, nor the backslash, nor a control character. -/
  | plain {c : Char} (low : 0x20 ≤ c.toNat) (quote : c ≠ '"') (slash : c ≠ '\\') :
      Glyph (String.utf8EncodeChar c)
  /-- A backslash and a letter. -/
  | short {b : UInt8} {c : Char} (h : shortEscape? (Char.ofUInt8 b) = some c) : Glyph [0x5c, b]
  /-- A backslash, `u` and four hexadecimal digits. -/
  | unit {u : List UInt8} {n : Nat} (h : Hexadecimal u n) : Glyph (0x5c :: 0x75 :: u)

/-- A string of the grammar, with its quotes. -/
def IsString (t : List UInt8) : Prop :=
  ∃ glyphs : List (List UInt8), (∀ g ∈ glyphs, Glyph g) ∧ t = 0x22 :: (glyphs.flatten ++ [0x22])

theorem turns_skip_plain {b : UInt8} (h : Plain b) : Turns skipString [b] skipString := by
  refine ⟨1, Nat.le_refl 1, fun fuel rest ↦ ?_⟩
  obtain ⟨low, quote, slash⟩ := h
  rw [List.singleton_append, skipString, bind_ok (get_eq _)]
  dsimp only
  rw [bind_ok (advance_cons _ _), if_neg quote, if_neg slash, if_neg fun lt ↦ ?_]
  exact absurd (UInt8.lt_iff_toNat_lt.mp lt) (Nat.not_lt.mpr low)

theorem turns_skip_escaped {e : List UInt8} (h : ∀ rest, skipEscaped (e ++ rest) = .ok ((), rest)) :
    Turns skipString (0x5c :: e) skipString := by
  refine ⟨1, by simp, fun fuel rest ↦ ?_⟩
  rw [List.cons_append, skipString, bind_ok (get_eq _)]
  dsimp only
  rw [bind_ok (advance_cons _ _), if_neg (by decide), if_pos (by decide),
    bind_ok (h rest)]

theorem turns_skip_short {b : UInt8} {c : Char} (h : shortEscape? (Char.ofUInt8 b) = some c) :
    Turns skipString [0x5c, b] skipString := by
  have ne : Char.ofUInt8 b ≠ 'u' := by
    intro eq
    rw [eq] at h
    cases h
  refine turns_skip_escaped fun rest ↦ ?_
  rw [List.singleton_append, skipEscaped, bind_ok (peek_cons _ _)]
  dsimp only
  rw [bind_ok (advance_cons _ _), if_neg ne, if_neg]
  · rfl
  · simp [h]

theorem turns_skip_unit {u : List UInt8} {n : Nat} (h : Hexadecimal u n) :
    Turns skipString (0x5c :: 0x75 :: u) skipString := by
  refine turns_skip_escaped fun rest ↦ ?_
  rw [List.cons_append, skipEscaped, bind_ok (peek_cons _ _)]
  dsimp only
  rw [bind_ok (advance_cons _ _), if_pos (by decide)]
  exact bind_ok (h.unit_ok rest)

end IdlLinker.Json
