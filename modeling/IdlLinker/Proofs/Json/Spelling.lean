import IdlLinker.Proofs.Json.Fits
import IdlLinker.Proofs.Json.Floating
import IdlLinker.Proofs.Json.Skip

/-!
# Documents of a value

A value can be spelled in many ways: blanks may stand between the words, the members of an object
that stands for a record may come in any order, a member may be left out where its part is the
default, and members with other names may be added, with any JSON value. `Shape.Spells` says that a
text is one of these; a table keeps the order of its entries, and a tag the one member it has.

All spellings are read as the value (`Shape.reads`), if only the value fits where it stands and its
floating point numbers are read back. Objects of records carry the argument: the slots are filled in
whatever order the members come, and after some members they hold the parts that these members are
for (`Fields.slotsOf`).
-/

namespace IdlLinker.Json

open Reader Decimal

/-! ## Floating point numbers of a value -/

mutual

/-- The floating point numbers in a value, in the order in which they are written. -/
def Shape.floats {α : Type} : Shape α → α → List Floating
  | .boolean, _ => []
  | .integer _, _ => []
  | .float32, x => [.single x]
  | .float64, x => [.double x]
  | .text, _ => []
  | .optional _, none => []
  | .optional shape, some a => shape.floats a
  | .list shape, as => as.flatMap shape.floats
  | .table shape, t => t.entries.flatMap fun e ↦ shape.floats e.2
  | .numbered shape, es => es.entries.flatMap fun e ↦ shape.floats e.2
  | .record _ fields _, a => fields.floats (fields.parts a)
  | .choice variants, a => variants.floats a
  | .tooDeep, _ => []

/-- The floating point numbers in the parts of a record. -/
def Fields.floats {α ρ σ : Type} : Fields α ρ σ → ρ → List Floating
  | .done, _ => []
  | .field _ shape _ _ rest, (b, bs) => shape.floats b ++ rest.floats bs

/-- The floating point numbers in a tagged value. -/
def Variants.floats {α : Type} : Variants α → α → List Floating
  | .done, _ => []
  | .bare _ _ isValue rest, a => if isValue a then [] else rest.floats a
  | .payload _ shape _ project rest, a =>
    match project a with
    | some b => shape.floats b
    | none => rest.floats a

end

/-- A number is finite and is read back. -/
def Floating.Exact (x : Floating) : Prop := x.isFinite = true ∧ x.Rereads

/-! ## Spellings -/

/-- The text of a member with the given name and value. -/
def IsMember (m : String × List UInt8) (text : List UInt8) : Prop :=
  ∃ key, IsText m.1 key ∧ Member (key, m.2) text

/-- The text of an object whose members have the given names and values. -/
def IsRecord (members : List (String × List UInt8)) (t : List UInt8) : Prop :=
  ∃ texts, List.Forall₂ IsMember members texts ∧ Encloses 0x7b 0x7d texts t

mutual

/-- A text is a spelling of a value. -/
def Shape.Spells {α : Type} : Shape α → α → List UInt8 → Prop
  | .boolean, b, t => t = bytes (Json.bool b).scalar
  | .integer range, n, t => t = bytes (Json.int (range.toInt n)).scalar
  | .float32, x, t => t = bytes (Json.float32 x).scalar
  | .float64, x, t => t = bytes (Json.float64 x).scalar
  | .text, s, t => IsText s t
  | .optional _, none, t => t = bytes "null"
  | .optional shape, some a, t => shape.Spells a t
  | .list shape, as, t => ∃ items, List.Forall₂ shape.Spells as items ∧ IsList items t
  | .table shape, tbl, t =>
    ∃ members, List.Forall₂ (fun e m ↦ m.1 = e.1 ∧ shape.Spells e.2 m.2) tbl.entries members ∧
      IsRecord members t
  | .numbered shape, es, t =>
    ∃ members, List.Forall₂ (fun e m ↦ m.1 = bytes (quoted (toString e.1)) ∧
      shape.Spells e.2 m.2) es.entries members ∧ IsObject members t
  | .record _ fields _, a, t =>
    ∃ kept added members, fields.Keeps (fields.parts a) kept ∧
      (∀ m ∈ added, m.1 ∉ fields.names ∧ IsJson m.2) ∧ members.Perm (kept ++ added) ∧
      IsRecord members t
  | .choice variants, a, t => variants.Spells a t
  | .tooDeep, _, _ => False

/-- The members that are kept of a record: one for each part, but a part that is the default of its
field may be left out. -/
def Fields.Keeps {α ρ σ : Type} : Fields α ρ σ → ρ → List (String × List UInt8) → Prop
  | .done, _, kept => kept = []
  | .field name shape default _ rest, (b, bs), kept =>
    (∃ t others, kept = (name, t) :: others ∧ shape.Spells b t ∧ rest.Keeps bs others) ∨
      default = some b ∧ rest.Keeps bs kept

/-- A spelling of a tagged value, by the first variant that it belongs to. -/
def Variants.Spells {α : Type} : Variants α → α → List UInt8 → Prop
  | .done, _, _ => False
  | .bare tag _ isValue rest, a, t =>
    if isValue a then IsText tag t else rest.Spells a t
  | .payload tag shape _ project rest, a, t =>
    match project a with
    | some b => ∃ payload, shape.Spells b payload ∧ IsRecord [(tag, payload)] t
    | none => rest.Spells a t

end

/-! ## Words and scalars -/

section Scalars

variable {gap rest t u : List UInt8} {expected : String}

theorem reads_boolean (b : Bool) :
    Reads (Reader.boolean expected) (bytes (Json.bool b).scalar) b := by
  cases b with
  | false =>
    rw [scalar, if_neg Bool.false_ne_true, bytes_false]
    refine ⟨⟨_, _, rfl, by decide, by decide⟩, fun gap rest blank _ ↦ ?_⟩
    rw [List.cons_append, Reader.boolean, bind_ok (start_ok blank (by decide))]
    rfl
  | true =>
    rw [scalar, if_pos rfl, bytes_true]
    refine ⟨⟨_, _, rfl, by decide, by decide⟩, fun gap rest blank _ ↦ ?_⟩
    rw [List.cons_append, Reader.boolean, bind_ok (start_ok blank (by decide))]
    rfl

theorem IntegerRange.Lawful.inRange_ok {α : Type} {range : IntegerRange α} (lawful : range.Lawful)
    (a : α) (i : List UInt8) : inRange range (range.toInt a) i = .ok (a, i) := by
  rw [inRange, if_pos (lawful.contains a), lawful.ofInt]
  rfl

theorem reads_integer {α : Type} {range : IntegerRange α} (lawful : range.Lawful) (a : α) :
    Reads (Reader.integer range) (bytes (Json.int (range.toInt a)).scalar) a := by
  have number := numberText_toString (range.toInt a)
  have value := numberOf_integer (lawful.le_toInt a) (lawful.toInt_lt a)
  refine ⟨number.solid, fun gap rest blank apart ↦ ?_⟩
  rw [scalar, Reader.integer, bind_ok ((expectNumber_ok _ number blank apart).trans (value rest))]
  exact lawful.inRange_ok a rest

theorem IsText.solid {s : String} (h : IsText s t) : Solid t := by
  obtain ⟨glyphs, -, rfl⟩ := h
  exact ⟨_, _, rfl, by decide, by decide⟩

theorem reads_text {s : String} (h : IsText s t) : Reads (Reader.text expected) t s := by
  refine ⟨h.solid, fun gap rest blank _ ↦ ?_⟩
  obtain ⟨u, rfl, string_ok⟩ := h.exists_string_ok
  rw [List.cons_append, Reader.text, bind_ok (start_ok blank (by decide)), if_pos (by decide)]
  exact (bind_ok (advance_cons _ _)).trans (string_ok rest)

end Scalars

/-! ## Records -/

namespace Fields

variable {α ρ σ : Type}

/-- The slots after the members with these keys were read, given the parts. -/
def slotsOf {α ρ σ : Type} : Fields α ρ σ → ρ → List String → σ
  | .done, _, _ => ()
  | .field name _ _ _ rest, (b, bs), keys =>
    (if name ∈ keys then some b else none, rest.slotsOf bs keys)

theorem slotsOf_nil {α ρ σ : Type} : (fields : Fields α ρ σ) → (parts : ρ) →
    fields.slotsOf parts [] = fields.emptySlots
  | .done, _ => rfl
  | .field name shape default get rest, (b, bs) => by
    rw [slotsOf, emptySlots, rest.slotsOf_nil, if_neg (List.not_mem_nil)]

theorem slotsOf_cons_of_not_mem {α ρ σ : Type} {key : String} {keys : List String} :
    (fields : Fields α ρ σ) → (parts : ρ) → key ∉ fields.names →
      fields.slotsOf parts (key :: keys) = fields.slotsOf parts keys
  | .done, _, _ => rfl
  | .field name shape default get rest, (b, bs), foreign => by
    rw [names, List.mem_cons, not_or] at foreign
    rw [slotsOf, slotsOf, rest.slotsOf_cons_of_not_mem bs foreign.2]
    simp [Ne.symm foreign.1]

theorem fill_slotsOf {α ρ σ : Type} {kept : List (String × List UInt8)} {keys : List String} :
    (fields : Fields α ρ σ) → (parts : ρ) → fields.Keeps parts kept →
      (∀ m ∈ kept, m.1 ∈ keys) → fields.fill (fields.slotsOf parts keys) = .ok parts
  | .done, _, _, _ => rfl
  | .field name shape default get rest, (b, bs), keeps, all => by
    rw [slotsOf, fill]
    rcases keeps with ⟨t, others, rfl, -, keeps⟩ | ⟨rfl, keeps⟩
    · obtain ⟨first, all⟩ := List.forall_mem_cons.mp all
      have slot : ((if name ∈ keys then some b else none) <|> default) = some b := by
        rw [if_pos first]
        rfl
      rw [slot]
      dsimp only
      rw [rest.fill_slotsOf bs keeps all]
      rfl
    · have slot : ((if name ∈ keys then some b else none) <|> some b) = some b := by
        split <;> rfl
      rw [slot]
      dsimp only
      rw [rest.fill_slotsOf bs keeps all]
      rfl

theorem Keeps.sublist {α ρ σ : Type} {kept : List (String × List UInt8)} :
    {fields : Fields α ρ σ} → {parts : ρ} → fields.Keeps parts kept →
      (kept.map Prod.fst).Sublist fields.names
  | .done, _, keeps => by
    subst keeps
    exact List.Sublist.refl _
  | .field name shape default get rest, (b, bs), keeps => by
    rcases keeps with ⟨t, others, rfl, -, keeps⟩ | ⟨-, keeps⟩
    · exact (Keeps.sublist keeps).cons_cons name
    · exact (Keeps.sublist keeps).cons name

theorem readMember_foreign {α ρ σ : Type} {depth : Nat} {key : String}
    {value gap gap' rest : List UInt8} (json : IsJson value) (blank : Blank gap)
    (blank' : Blank gap') (apart : Apart rest) :
    (fields : Fields α ρ σ) → (slots : σ) → key ∉ fields.names →
      fields.readMember depth key slots (gap ++ 0x3a :: (gap' ++ (value ++ rest))) =
        .ok (slots, rest)
  | .done, _, _ => by
    have skip := inside_ok (.member key) (json.reads_skip.read gap' rest blank' apart)
    rw [readMember, bind_ok (colon_ok blank _), bind_ok skip]
    rfl
  | .field name shape default get others, (slot, slots), foreign => by
    rw [names, List.mem_cons, not_or] at foreign
    rw [readMember, if_neg foreign.1,
      bind_ok (readMember_foreign json blank blank' apart others slots foreign.2)]
    rfl

/-- A member of a record is read into its slot, in a place among others. -/
def ReadsMember {α ρ σ : Type} (fields : Fields α ρ σ) (depth : Nat) (parts : ρ) (key : String)
    (value : List UInt8) : Prop :=
  ∀ keys gap gap' rest, key ∉ keys → Blank gap → Blank gap' → Apart rest →
    fields.readMember depth key (fields.slotsOf parts keys)
      (gap ++ 0x3a :: (gap' ++ (value ++ rest))) = .ok (fields.slotsOf parts (key :: keys), rest)

/-- **The members of a record may come in any order**, and others among them: from slots that hold
the parts of some members, they lead to slots that hold those of all. -/
theorem chain_members {α ρ σ : Type} {depth : Nat} {fields : Fields α ρ σ} {parts : ρ}
    {members : List (String × List UInt8)} {texts : List (List UInt8)} (keys : List String)
    (known : ∀ m ∈ members, m.1 ∈ fields.names ∧ fields.ReadsMember depth parts m.1 m.2 ∨
      m.1 ∉ fields.names ∧ IsJson m.2)
    (different : members.Pairwise fun m m' ↦ m.1 ∈ fields.names → m.1 ≠ m'.1)
    (new : ∀ m ∈ members, m.1 ∈ fields.names → m.1 ∉ keys)
    (h : List.Forall₂ IsMember members texts) :
    ∃ all, (∀ m ∈ members, m.1 ∈ all) ∧ (∀ k ∈ keys, k ∈ all) ∧
      Chain (Moves string (fields.readMember depth)) (fields.slotsOf parts keys) texts
        (fields.slotsOf parts all) := by
  induction members generalizing keys texts with
  | nil =>
    cases h
    exact ⟨keys, by simp, fun _ hk ↦ hk, .nil⟩
  | cons m members ih =>
    obtain ⟨key, value⟩ := m
    obtain ⟨knownFirst, known⟩ := List.forall_mem_cons.mp known
    obtain ⟨differs, different⟩ := List.pairwise_cons.mp different
    obtain ⟨newFirst, new⟩ := List.forall_mem_cons.mp new
    obtain ⟨text, texts, first, others, rfl⟩ := List.forall₂_cons_left_iff.mp h
    have step : Moves string (fields.readMember depth) (fields.slotsOf parts keys) text
        (fields.slotsOf parts (key :: keys)) := by
      obtain ⟨_, isText, @⟨_, _, gap, gap', blank, blank'⟩⟩ := first
      obtain ⟨u, rfl, string_ok⟩ := isText.exists_string_ok
      refine ⟨_, List.cons_append, fun rest apart ↦
        ⟨key, gap ++ 0x3a :: (gap' ++ (value ++ rest)), ?_⟩⟩
      simp only [List.append_assoc, List.cons_append]
      refine ⟨string_ok _, ?_⟩
      rcases knownFirst with ⟨isName, reads⟩ | ⟨foreign, json⟩
      · exact reads keys gap gap' rest (newFirst isName) blank blank' apart
      · rw [fields.slotsOf_cons_of_not_mem parts foreign]
        exact readMember_foreign json blank blank' apart fields _ foreign
    have newKeys : ∀ m ∈ members, m.1 ∈ fields.names → m.1 ∉ key :: keys := by
      intro m hm isName old
      rcases List.mem_cons.mp old with same | old
      · exact differs m hm (same ▸ isName) same.symm
      · exact new m hm isName old
    obtain ⟨all, has, keeps, chain⟩ := ih (key :: keys) known different newKeys others
    refine ⟨all, List.forall_mem_cons.mpr ⟨keeps key List.mem_cons_self, has⟩,
      fun k hk ↦ keeps k (List.mem_cons_of_mem key hk), .cons step chain⟩

/-- **An object of a record is read into slots of all members that were kept**, in whatever order
they come and whatever is added. -/
theorem members_of_keeps {α ρ σ : Type} {depth : Nat} {fields : Fields α ρ σ} {parts : ρ}
    {kept added members : List (String × List UInt8)} {t : List UInt8} (names : fields.names.Nodup)
    (keeps : fields.Keeps parts kept)
    (reads : ∀ m ∈ kept, fields.ReadsMember depth parts m.1 m.2)
    (foreign : ∀ m ∈ added, m.1 ∉ fields.names ∧ IsJson m.2)
    (perm : members.Perm (kept ++ added)) (h : IsRecord members t) :
    ∃ tail slots, t = 0x7b :: tail ∧ fields.fill slots = .ok parts ∧
      ∀ fuel rest, tail.length ≤ fuel →
        Reader.members string (fields.readMember depth) fuel true fields.emptySlots
          (tail ++ rest) = .ok (slots, rest) := by
  have isName : ∀ m ∈ kept, m.1 ∈ fields.names :=
    fun m hm ↦ keeps.sublist.mem (List.mem_map_of_mem hm)
  have known : ∀ m ∈ members, m.1 ∈ fields.names ∧ fields.ReadsMember depth parts m.1 m.2 ∨
      m.1 ∉ fields.names ∧ IsJson m.2 := by
    intro m hm
    rcases List.mem_append.mp (perm.mem_iff.mp hm) with hm | hm
    · exact Or.inl ⟨isName m hm, reads m hm⟩
    · exact Or.inr (foreign m hm)
  have different : members.Pairwise fun m m' ↦ m.1 ∈ fields.names → m.1 ≠ m'.1 := by
    have symm : ∀ {m m' : String × List UInt8}, (m.1 ∈ fields.names → m.1 ≠ m'.1) →
        m'.1 ∈ fields.names → m'.1 ≠ m.1 :=
      fun differ name same ↦ differ (same ▸ name) same.symm
    rw [perm.pairwise_iff symm, List.pairwise_append]
    refine ⟨?_, ?_, ?_⟩
    · have differ : kept.Pairwise fun m m' ↦ m.1 ≠ m'.1 :=
        List.pairwise_map.mp (keeps.sublist.nodup names)
      refine differ.imp ?_
      exact fun ne _ ↦ ne
    · exact List.pairwise_of_forall_mem_list fun m hm m' _ name ↦ absurd name (foreign m hm).1
    · exact fun m hm m' hm' _ same ↦ (foreign m' hm').1 (same ▸ isName m hm)
  obtain ⟨texts, spelled, encloses⟩ := h
  obtain ⟨all, has, -, chain⟩ := chain_members [] known different (by simp) spelled
  obtain ⟨tail, rfl, loop⟩ := members_ok encloses chain
  rw [fields.slotsOf_nil] at loop
  refine ⟨tail, _, rfl, fields.fill_slotsOf parts keeps fun m hm ↦ ?_, loop⟩
  exact has m (perm.mem_iff.mpr (List.mem_append_left added hm))

end Fields

/-! ## Tables -/

section Tables

variable {α ε σ : Type} {shape : Shape α} {depth : Nat} {expected : String}

/-- Members that each store one entry store all entries in turn. -/
theorem chain_of_forall₂ {move : σ → List UInt8 → σ → Prop} {put : σ → ε → σ} {entries : List ε}
    {texts : List (List UInt8)} (h : List.Forall₂ (fun e m ↦ ∀ s, move s m (put s e)) entries texts)
    (s : σ) : Chain move s texts (entries.foldl put s) := by
  induction h generalizing s with
  | nil => exact .nil
  | cons first _ ih => exact .cons (first s) (ih (put s _))

theorem moves_entry {e : String × α} {m : String × List UInt8} {text : List UInt8}
    (reads : m.1 = e.1 ∧ Reads (shape.read depth) m.2 e.2) (h : IsMember m text)
    (t : Table String α) :
    Moves string (fun key t ↦ do
      colon
      return t.insert key (← inside (.member key) (shape.read depth))) t text
      (t.insert e.1 e.2) := by
  obtain ⟨key, value⟩ := m
  obtain ⟨rfl, reads⟩ := reads
  obtain ⟨_, isText, @⟨_, _, gap, gap', blank, blank'⟩⟩ := h
  obtain ⟨u, rfl, string_ok⟩ := isText.exists_string_ok
  refine ⟨_, List.cons_append, fun rest apart ↦ ⟨e.1, gap ++ 0x3a :: (gap' ++ (value ++ rest)), ?_⟩⟩
  simp only [List.append_assoc, List.cons_append]
  refine ⟨string_ok _, ?_⟩
  rw [bind_ok (colon_ok blank _), bind_ok (inside_ok _ (reads.read gap' rest blank' apart))]
  rfl

theorem body_repr (n : Nat) : body (Nat.repr n) = bytes (toString (n : Int)) := by
  have plain : ∀ c ∈ Nat.toDigits 10 n, bytes (escape c) = String.utf8EncodeChar c := by
    intro c hc
    have digit := isDigit_of_mem_toDigits hc
    have other {d : Char} (h : d.isDigit = false) : c ≠ d := by
      rintro rfl
      rw [h] at digit
      cases digit
    have least : 0x20 ≤ c.toNat := by
      simp only [Char.isDigit, ge_iff_le, Bool.and_eq_true, decide_eq_true_eq,
        UInt32.le_iff_toNat_le] at digit
      exact Nat.le_trans (by decide) digit.1
    rw [escape, if_neg (by omega), bytes_singleton]
    all_goals exact fun eq ↦ other rfl eq
  change body (Nat.repr n) = bytes (Nat.repr n)
  rw [body, bytes_eq, Nat.toList_repr]
  exact List.flatMap_congr plain

/-- A number that serves as a key is known before the key ends. -/
theorem numberKey_ok (k : UInt32) (rest : List UInt8) :
    numberKey expected (bytes (toString (k.toNat : Int)) ++ 0x22 :: rest) =
      .ok ((k.toNat : Int), 0x22 :: rest) := by
  have lawful := IntegerRange.lawful_uint32
  have apart : Apart (0x22 :: rest) := by
    rintro b ⟨⟩
    decide
  have read : number (bytes (toString (k.toNat : Int)) ++ 0x22 :: rest) =
      .ok (.integer k.toNat, 0x22 :: rest) :=
    number_toString (lawful.le_toInt k) (lawful.toInt_lt k) apart
  obtain ⟨b, u, eq, -, start⟩ := (numberText_toString (k.toNat : Int)).start
  rw [eq, List.cons_append] at read ⊢
  rw [numberKey, bind_ok (peek_cons _ _)]
  dsimp only
  rw [if_pos start, bind_ok read]
  rfl

theorem moves_numbered {e : UInt32 × α} {m : List UInt8 × List UInt8} {text : List UInt8}
    (reads : m.1 = bytes (quoted (toString e.1)) ∧ Reads (shape.read depth) m.2 e.2)
    (h : Member m text) (es : Numbered α) :
    Moves (numberKey "u32") (fun key es ↦ do
      let segment := Segment.member (toString key)
      let k ← inside segment do
        let k ← inRange .uint32 key
        if ← take? '"' then return k else fail .expectedQuote
      colon
      return es.insert k (← inside segment (shape.read depth))) es text
      (es.insert e.1 e.2) := by
  obtain ⟨k, a⟩ := e
  obtain ⟨written, reads⟩ := reads
  obtain @⟨key, value, gap, gap', blank, blank'⟩ := h
  obtain rfl : key = 0x22 :: (bytes (toString (k.toNat : Int)) ++ [0x22]) := by
    rw [← body_repr, ← bytes_quoted]
    exact written
  refine ⟨_, List.cons_append, fun rest apart ↦
    ⟨(k.toNat : Int), 0x22 :: (gap ++ 0x3a :: (gap' ++ (value ++ rest))), ?_⟩⟩
  simp only [List.append_assoc, List.cons_append, List.nil_append]
  refine ⟨numberKey_ok k _, ?_⟩
  have bound : inRange .uint32 (k.toNat : Int)
      (0x22 :: (gap ++ 0x3a :: (gap' ++ (value ++ rest)))) =
        .ok (k, 0x22 :: (gap ++ 0x3a :: (gap' ++ (value ++ rest)))) :=
    IntegerRange.lawful_uint32.inRange_ok k _
  have quote : take? '"' (0x22 :: (gap ++ 0x3a :: (gap' ++ (value ++ rest)))) =
      .ok (true, gap ++ 0x3a :: (gap' ++ (value ++ rest))) := take?_of_eq rfl
  refine (bind_ok (inside_ok _ ((bind_ok bound).trans (bind_ok quote)))).trans ?_
  exact (bind_ok (colon_ok blank _)).trans
    (bind_ok (inside_ok _ (reads.read gap' rest blank' apart)))

theorem store_of_forall_lt {k : UInt32} {a : α} {es : List (UInt32 × α)}
    (h : ∀ e ∈ es, e.1 < k) : Numbered.store k a es = es ++ [(k, a)] := by
  induction es with
  | nil => rfl
  | cons e es ih =>
    obtain ⟨less, h⟩ := List.forall_mem_cons.mp h
    rw [Numbered.store, if_neg (UInt32.not_lt.mpr (UInt32.le_of_lt less)),
      if_neg (UInt32.ne_of_lt less).symm, ih h, List.cons_append]

/-- Numbered entries that are stored in their order make the table again. -/
theorem foldl_insert_entries (es : Numbered α) :
    es.entries.foldl (fun t e ↦ t.insert e.1 e.2) Numbered.empty = es := by
  have entries : ∀ l : List (UInt32 × α), l.Pairwise (fun e e' ↦ e.1 < e'.1) →
      (l.foldl (fun t e ↦ t.insert e.1 e.2) Numbered.empty).entries = l := by
    intro l increasing
    induction l using List.reverseRecOn with
    | nil => rfl
    | append_singleton l e ih =>
      obtain ⟨increasing, -, less⟩ := List.pairwise_append.mp increasing
      rw [List.foldl_append, List.foldl_cons, List.foldl_nil]
      change Numbered.store _ _ (Numbered.entries _) = _
      rw [ih increasing, store_of_forall_lt fun e' he' ↦ less e' he' e (by simp)]
  have same := entries es.entries es.increasing
  obtain ⟨l, increasing⟩ := es
  generalize l.foldl (fun t e ↦ t.insert e.1 e.2) Numbered.empty = t at same
  cases t
  cases same
  rfl

end Tables

end IdlLinker.Json
