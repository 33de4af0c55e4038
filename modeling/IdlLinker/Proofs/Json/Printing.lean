import IdlLinker.Proofs.Json.Spelling

/-!
# Printed documents

The two printed forms differ in their blanks only. `Printer` says what they have in common: a list
or an object is its parts between brackets, and anything else is printed alike. What any printer
makes of the document of a value is a spelling of the value (`Shape.spells_write`), the one with
every member in its place.

The proof never unfolds a printed form as a whole. From a printer it asks for three things: that a
scalar is printed as its text, and that a list and an object are printed as parts that are joined by
commas with blanks around them. The levels of indentation are such blanks, so they are gone from
then on.
-/

namespace IdlLinker.Json

open Reader

/-! ## Printers -/

/-- A document is neither a list nor an object. -/
def IsScalar : Json → Prop
  | .list _ | .object _ => False
  | _ => True

/-- A way to print documents, given how deep they are nested. -/
structure Printer (print : Nat → Json → String) : Prop where
  scalar : ∀ depth j, IsScalar j → print depth j = j.scalar
  list : ∀ depth items,
    IsList (items.map fun j ↦ bytes (print (depth + 1) j)) (bytes (print depth (.list items)))
  object : ∀ depth members,
    IsObject (members.map fun m ↦ (bytes (quoted m.1), bytes (print (depth + 1) m.2)))
      (bytes (print depth (.object members)))

theorem encloses_join {ι : Type} (opening close : UInt8) (join : List ι → String)
    (part : ι → String) {gap last : String} (blank : Blank (bytes gap))
    (blankLast : Blank (bytes last)) (one : ∀ i, join [i] = gap ++ part i)
    (more : ∀ i j rest, join (i :: j :: rest) = gap ++ part i ++ "," ++ join (j :: rest))
    (i : ι) (rest : List ι) :
    Encloses opening close ((i :: rest).map fun i ↦ bytes (part i))
      (opening :: (bytes (join (i :: rest)) ++ (bytes last ++ [close]))) := by
  have comma : bytes "," = [0x2c] := bytes_eq ","
  have continues : ∀ (i : ι) (rest : List ι), ∃ u,
      bytes (join (i :: rest)) ++ (bytes last ++ [close]) = bytes gap ++ (bytes (part i) ++ u) ∧
        Continues close (rest.map fun i ↦ bytes (part i)) u := by
    intro i rest
    induction rest generalizing i with
    | nil =>
      refine ⟨_, ?_, .stop blankLast⟩
      rw [one, bytes_append, List.append_assoc]
    | cons j rest ih =>
      obtain ⟨u, eq, others⟩ := ih j
      refine ⟨_, ?_, .more .nil blank others⟩
      rw [more, bytes_append, bytes_append, bytes_append, comma]
      simp only [List.append_assoc, eq]
      rfl
  obtain ⟨u, eq, others⟩ := continues i rest
  rw [eq]
  exact .parts blank others

theorem isObject_join (join : List (String × Json) → String) (value : Json → String)
    {gap last colon : String} {space : List UInt8} (blank : Blank (bytes gap))
    (blankLast : Blank (bytes last)) (blankColon : Blank space)
    (hcolon : bytes colon = 0x3a :: space)
    (one : ∀ m, join [m] = gap ++ (quoted m.1 ++ colon ++ value m.2))
    (more : ∀ m m' rest, join (m :: m' :: rest) =
      gap ++ (quoted m.1 ++ colon ++ value m.2) ++ "," ++ join (m' :: rest))
    (m : String × Json) (rest : List (String × Json)) :
    IsObject ((m :: rest).map fun m ↦ (bytes (quoted m.1), bytes (value m.2)))
      (0x7b :: (bytes (join (m :: rest)) ++ (bytes last ++ [0x7d]))) := by
  refine ⟨_, ?_, encloses_join 0x7b 0x7d join _ blank blankLast one more m rest⟩
  rw [List.forall₂_map_left_iff, List.forall₂_map_right_iff, List.forall₂_same]
  intro m _
  rw [bytes_append, bytes_append, hcolon, List.append_assoc]
  exact .mk .nil blankColon

/-! ## The two forms -/

theorem bytes_brackets : bytes "[" = [0x5b] ∧ bytes "]" = [0x5d] ∧ bytes "\x7b" = [0x7b] ∧
    bytes "\x7d" = [0x7d] :=
  ⟨bytes_eq "[", bytes_eq "]", bytes_eq "\x7b", bytes_eq "\x7d"⟩

theorem bytes_empty_brackets : bytes "[]" = [0x5b, 0x5d] ∧ bytes "\x7b\x7d" = [0x7b, 0x7d] :=
  ⟨bytes_eq "[]", bytes_eq "\x7b\x7d"⟩

theorem blank_empty : Blank (bytes "") := by
  rw [bytes_empty]
  exact .nil

/-- **The form on one line.** -/
theorem printer_compact : Printer fun _ ↦ compact where
  scalar _ j h := by
    cases j with
    | list | object => exact h.elim
    | null | bool | int | float32 | float64 | text => rw [compact] <;> simp
  list _ items := by
    obtain ⟨left, right, -⟩ := bytes_brackets
    rw [compact, bytes_append, bytes_append, left, right]
    cases items with
    | nil =>
      rw [compactItems, bytes_empty]
      exact .empty .nil
    | cons j rest =>
      have text := encloses_join 0x5b 0x5d compactItems compact blank_empty blank_empty
        (fun j ↦ by simp [compactItems]) (fun j j' rest ↦ by simp [compactItems]) j rest
      simpa [IsList] using text
  object _ members := by
    obtain ⟨-, -, left, right⟩ := bytes_brackets
    rw [compact, bytes_append, bytes_append, left, right]
    cases members with
    | nil =>
      rw [compactMembers, bytes_empty]
      exact ⟨[], .nil, .empty .nil⟩
    | cons m rest =>
      have text := isObject_join compactMembers compact blank_empty blank_empty .nil (bytes_eq ":")
        (fun m ↦ by simp [compactMembers]) (fun m m' rest ↦ by simp [compactMembers]) m rest
      simpa using text

theorem blank_newline (depth : Nat) : Blank (bytes (newline depth)) := by
  intro b hb
  rw [newline, bytes_append] at hb
  rcases List.mem_append.mp hb with hb | hb
  · rw [bytes_eq] at hb
    obtain rfl : b = 0x0a := List.mem_singleton.mp hb
    rfl
  · rw [bytes_ofList] at hb
    obtain ⟨c, hc, hb⟩ := List.mem_flatMap.mp hb
    obtain rfl := List.eq_of_mem_replicate hc
    obtain rfl : b = 0x20 := List.mem_singleton.mp hb
    rfl

/-- **The indented form.** -/
theorem printer_indented : Printer indented where
  scalar depth j h := by
    cases j with
    | list | object => exact h.elim
    | null | bool | int | float32 | float64 | text => rw [indented] <;> simp
  list depth items := by
    cases items with
    | nil =>
      rw [indented, bytes_empty_brackets.1]
      exact .empty .nil
    | cons j rest =>
      obtain ⟨left, right, -⟩ := bytes_brackets
      have text := encloses_join 0x5b 0x5d (indentedItems (depth + 1))
        (indented (depth + 1)) (blank_newline (depth + 1)) (blank_newline depth)
        (fun j ↦ by simp [indentedItems]) (fun j j' rest ↦ by simp [indentedItems]) j rest
      rw [indented, bytes_append, bytes_append, bytes_append, left, right]
      · simpa [IsList] using text
      · simp
  object depth members := by
    cases members with
    | nil =>
      rw [indented, bytes_empty_brackets.2]
      exact ⟨[], .nil, .empty .nil⟩
    | cons m rest =>
      obtain ⟨-, -, left, right⟩ := bytes_brackets
      have space : Blank [0x20] := by simp [Blank, isBlank]
      have text := isObject_join (indentedMembers (depth + 1)) (indented (depth + 1))
        (blank_newline (depth + 1)) (blank_newline depth) space (bytes_eq ": ")
        (fun m ↦ by simp [indentedMembers, String.append_assoc])
        (fun m m' rest ↦ by simp [indentedMembers, String.append_assoc]) m rest
      rw [indented, bytes_append, bytes_append, bytes_append, left, right]
      · simpa using text
      · simp

/-! ## The document of a value -/

section Written

variable {print : Nat → Json → String}

/-- An object whose names are as they would be written. -/
theorem Printer.record (p : Printer print) (level : Nat) (members : List (String × Json)) :
    IsRecord (members.map fun m ↦ (m.1, bytes (print (level + 1) m.2)))
      (bytes (print level (.object members))) := by
  obtain ⟨texts, isMember, encloses⟩ := p.object level members
  rw [List.forall₂_map_left_iff] at isMember
  refine ⟨texts, List.forall₂_map_left_iff.mpr (isMember.imp fun m text member ↦ ?_), encloses⟩
  exact ⟨_, isText_quoted m.1, member⟩

mutual

/-- **What is printed for a value is a spelling of it.** -/
theorem Shape.spells_write {α : Type} (p : Printer print) {depth : Nat} :
    (shape : Shape α) → {a : α} → shape.Fits depth a → (level : Nat) →
      shape.Spells a (bytes (print level (shape.write a)))
  | .boolean, b, _, level => by
    rw [Shape.write, p.scalar level (.bool b) trivial]
    rfl
  | .integer range, n, _, level => by
    rw [Shape.write, p.scalar level (.int _) trivial]
    rfl
  | .float32, x, _, level => by
    rw [Shape.write, p.scalar level (.float32 x) trivial]
    rfl
  | .float64, x, _, level => by
    rw [Shape.write, p.scalar level (.float64 x) trivial]
    rfl
  | .text, s, _, level => by
    rw [Shape.write, p.scalar level (.text s) trivial]
    exact isText_quoted s
  | .optional _, none, _, level => by
    rw [Shape.write, p.scalar level .null trivial]
    rfl
  | .optional shape, some a, fits, level => shape.spells_write p (fits a rfl) level
  | .list shape, as, fits, level => by
    refine ⟨_, ?_, p.list level (as.map shape.write)⟩
    rw [List.map_map, List.forall₂_map_right_iff, List.forall₂_same]
    exact fun a ha ↦ shape.spells_write p (fits.2 a ha) (level + 1)
  | .table shape, tbl, fits, level => by
    refine ⟨_, ?_, p.record level _⟩
    rw [List.map_map, List.forall₂_map_right_iff, List.forall₂_same]
    exact fun e he ↦ ⟨rfl, shape.spells_write p (fits.2.2 e he) (level + 1)⟩
  | .numbered shape, es, fits, level => by
    refine ⟨_, ?_, p.object level _⟩
    rw [List.map_map, List.forall₂_map_right_iff, List.forall₂_same]
    exact fun e he ↦ ⟨rfl, shape.spells_write p (fits.2 e he) (level + 1)⟩
  | .record _ fields _, a, fits, level =>
    ⟨_, [], _, fields.keeps_write p fits.2 (level + 1), by simp, by simp, p.record level _⟩
  | .choice variants, a, fits, level => variants.spells_write p fits level
  | .tooDeep, _, fits, _ => fits.elim

theorem Fields.keeps_write {α ρ σ : Type} (p : Printer print) {depth : Nat} :
    (fields : Fields α ρ σ) → {a : α} → fields.Fits depth (fields.parts a) → (level : Nat) →
      fields.Keeps (fields.parts a) ((fields.write a).map fun m ↦ (m.1, bytes (print level m.2)))
  | .done, _, _, _ => rfl
  | .field _ shape _ _ rest, _, fits, level =>
    Or.inl ⟨_, _, rfl, shape.spells_write p fits.1 level, rest.keeps_write p fits.2 level⟩

/-- A tagged value is written by the first variant that it belongs to. -/
theorem Variants.spells_write {α : Type} (p : Printer print) {depth : Nat} :
    (variants : Variants α) → {a : α} → variants.Fits depth a → (level : Nat) →
      variants.Spells a (bytes (print level (variants.write a)))
  | .done, _, fits, _ => fits.elim
  | .bare tag value isValue rest, a, fits, level => by
    rw [Variants.Spells, Variants.write]
    split
    · rw [p.scalar level (.text tag) trivial]
      exact isText_quoted tag
    · rename_i other
      exact rest.spells_write p (fits.resolve_left other) level
  | .payload tag shape inject project rest, a, fits, level => by
    rw [Variants.Fits] at fits
    rw [Variants.Spells, Variants.write]
    cases projects : project a with
    | some b =>
      rw [projects] at fits
      exact ⟨_, shape.spells_write p fits.2 (level + 1), p.record level [(tag, shape.write b)]⟩
    | none =>
      rw [projects] at fits
      exact rest.spells_write p fits level

end

end Written

end IdlLinker.Json
