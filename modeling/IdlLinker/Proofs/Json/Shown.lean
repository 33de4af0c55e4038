import IdlLinker.Proofs.Json.Printing
import IdlLinker.Proofs.Json.Recover

/-!
# What a printed document shows

A document is not determined by its printed form: a floating point number does not show its width,
and one that has no JSON form shows as `null`. What remains is the *shown* document
(`Json.shown`), and that can be read back: there is one reader for all documents, and it takes every
printed form for what the document shows (`reads_print`). So two documents that are printed alike
show the same, even if one of them is printed on one line and the other is indented
(`shown_eq_of_print`).

The reader exists for this proof alone. It takes lists and objects apart like any other, but of a
number it takes the text and does not convert it, since it is the text that has to be the same. From
a document to what it shows nothing is lost but what no printed form has, so for modules, whose
numbers all have JSON forms, what is shown tells as much as the document (`Documents`).
-/

namespace IdlLinker.Json

open Decimal Reader

/-- A document without the widths of its numbers. -/
inductive Shown where
  | null
  | bool (b : Bool)
  /-- A number, as it is written. -/
  | number (t : List UInt8)
  | text (s : String)
  | list (items : List Shown)
  | object (members : List (String × Shown))

/-- A number, if it has a JSON form. -/
def shownNumber (finite : Bool) (text : String) : Shown :=
  if finite then .number (bytes text) else .null

mutual

/-- What any printed form of a document shows. -/
@[simp]
def shown : Json → Shown
  | .null => .null
  | .bool b => .bool b
  | .int n => .number (bytes (toString n))
  | .float32 x => shownNumber x.isFinite (layout32.text x)
  | .float64 x => shownNumber x.isFinite (layout64.text x)
  | .text s => .text s
  | .list items => .list (shownItems items)
  | .object members => .object (shownMembers members)

/-- What the items of a list show. -/
@[simp]
def shownItems : List Json → List Shown
  | [] => []
  | j :: rest => j.shown :: shownItems rest

/-- What the members of an object show. -/
@[simp]
def shownMembers : List (String × Json) → List (String × Shown)
  | [] => []
  | (k, j) :: rest => (k, j.shown) :: shownMembers rest

end

theorem shownItems_eq (items : List Json) : shownItems items = items.map shown := by
  induction items with
  | nil => rw [shownItems, List.map_nil]
  | cons j rest ih => rw [shownItems, ih, List.map_cons]

theorem shownMembers_eq (members : List (String × Json)) :
    shownMembers members = members.map fun m ↦ (m.1, m.2.shown) := by
  induction members with
  | nil => rw [shownMembers, List.map_nil]
  | cons m rest ih => rw [shownMembers, ih, List.map_cons]

/-! ## Reading any document -/

namespace Reader

/-- Takes a number as it is written. -/
def numberText : Reader (List UInt8) := fun input ↦
  (skipNumber input).map fun out ↦ (input.take (input.length - out.2.length), out.2)

/-- Reads what follows a name, and puts the member behind those before it. -/
def shownMember (inner : Reader Shown) (key : String) (front : List (String × Shown)) :
    Reader (List (String × Shown)) := do
  colon
  return front ++ [(key, ← inner)]

/-- Reads any document, and what is nested in it by `inner`. -/
def shownDocument (inner : Reader Shown) : Reader Shown := do
  match ← start with
  | 'n' => advance; keyword ['u', 'l', 'l']; return .null
  | 't' => advance; keyword ['r', 'u', 'e']; return .bool true
  | 'f' => advance; keyword ['a', 'l', 's', 'e']; return .bool false
  | '"' => advance; return .text (← string)
  | '[' =>
    advance
    return .list (← items inner (← remaining) 0 [])
  | '\x7b' =>
    advance
    return .object (← members string (shownMember inner) (← remaining) true [])
  | _ => return .number (← numberText)

/-- Reads any document of which no more than `depth` values are nested in each other. -/
def document : Nat → Reader Shown
  | 0 => fail .tooDeep
  | depth + 1 => shownDocument (document depth)

end Reader

variable {inner : Reader Shown} {t : List UInt8}

theorem numberText_ok (number : IsNumber t) {rest : List UInt8} (apart : Apart rest) :
    numberText (t ++ rest) = .ok (t, rest) := by
  obtain ⟨minus, whole, fraction, power, text⟩ := number
  rw [numberText, skipNumber_ok text apart]
  simp [Except.map]

theorem reads_null : Reads (shownDocument inner) (bytes "null") .null := by
  rw [bytes_null]
  refine ⟨⟨_, _, rfl, by decide, by decide⟩, fun gap rest blank _ ↦ ?_⟩
  rw [List.cons_append, shownDocument, bind_ok (start_ok blank (by decide))]
  rfl

theorem reads_bool (b : Bool) :
    Reads (shownDocument inner) (bytes (Json.bool b).scalar) (.bool b) := by
  cases b with
  | false =>
    rw [scalar, if_neg Bool.false_ne_true, bytes_false]
    refine ⟨⟨_, _, rfl, by decide, by decide⟩, fun gap rest blank _ ↦ ?_⟩
    rw [List.cons_append, shownDocument, bind_ok (start_ok blank (by decide))]
    rfl
  | true =>
    rw [scalar, if_pos rfl, bytes_true]
    refine ⟨⟨_, _, rfl, by decide, by decide⟩, fun gap rest blank _ ↦ ?_⟩
    rw [List.cons_append, shownDocument, bind_ok (start_ok blank (by decide))]
    rfl

theorem reads_quoted (s : String) : Reads (shownDocument inner) (bytes (quoted s)) (.text s) := by
  have isText := isText_quoted s
  refine ⟨isText.solid, fun gap rest blank _ ↦ ?_⟩
  obtain ⟨u, same, string_ok⟩ := isText.exists_string_ok
  rw [same, List.cons_append, shownDocument, bind_ok (start_ok blank (by decide))]
  exact (bind_ok (advance_cons _ _)).trans (bind_ok (string_ok rest))

theorem reads_number (number : IsNumber t) : Reads (shownDocument inner) t (.number t) := by
  obtain ⟨minus, whole, fraction, power, text⟩ := id number
  refine ⟨text.solid, fun gap rest blank apart ↦ ?_⟩
  have taken := numberText_ok number apart
  obtain ⟨b, u, rfl, hb, start⟩ := text.start
  obtain ⟨n, t, f, quote, list, object⟩ := ne_of_startsNumber start
  rw [List.cons_append, shownDocument, bind_ok (start_ok blank hb)]
  simp only
  exact (bind_ok taken).trans rfl

/-- A number without a JSON form is read as the word that stands in its place. -/
theorem reads_shownNumber {finite : Bool} {text : String}
    (number : finite = true → IsNumber (bytes text)) :
    Reads (shownDocument inner) (bytes (if finite then text else "null"))
      (shownNumber finite text) := by
  cases finite with
  | true => exact reads_number (number rfl)
  | false => exact reads_null

theorem reads_items {items : List Shown} {parts : List (List UInt8)}
    (reads : List.Forall₂ (fun a t ↦ Reads inner t a) items parts)
    (h : IsList parts t) : Reads (shownDocument inner) t (.list items) := by
  obtain ⟨tail, rfl, loop⟩ := items_ok h reads
  refine ⟨solid_bracket (.inl rfl), fun gap rest blank apart ↦ ?_⟩
  rw [List.cons_append, shownDocument, bind_ok (start_ok blank (by decide))]
  exact (bind_ok (advance_cons _ _)).trans ((bind_ok (remaining_eq _)).trans
    (bind_ok (loop _ rest (by simp))))

theorem moves_shown {m : String × Shown} {m' : String × List UInt8} {text : List UInt8}
    (reads : m'.1 = m.1 ∧ Reads inner m'.2 m.2) (h : IsMember m' text)
    (front : List (String × Shown)) :
    Moves string (shownMember inner) front text (front ++ [m]) := by
  obtain ⟨key, value⟩ := m'
  obtain ⟨rfl, reads⟩ := reads
  obtain ⟨_, isText, @⟨_, _, gap, gap', blank, blank'⟩⟩ := h
  obtain ⟨u, rfl, string_ok⟩ := isText.exists_string_ok
  refine ⟨_, List.cons_append, fun rest apart ↦ ⟨m.1, gap ++ 0x3a :: (gap' ++ (value ++ rest)), ?_⟩⟩
  simp only [List.append_assoc, List.cons_append]
  refine ⟨string_ok _, ?_⟩
  rw [shownMember, bind_ok (colon_ok blank _), bind_ok (reads.read gap' rest blank' apart)]
  rfl

theorem reads_members {members : List (String × Shown)} {parts : List (String × List UInt8)}
    (reads : List.Forall₂ (fun m m' ↦ m'.1 = m.1 ∧ Reads inner m'.2 m.2) members parts)
    (h : IsRecord parts t) : Reads (shownDocument inner) t (.object members) := by
  obtain ⟨texts, isMember, encloses⟩ := h
  have appends := forall₂_trans reads isMember fun _ _ _ ↦ moves_shown
  have chain : Chain _ [] texts (members.foldl (fun front m ↦ front ++ [m]) []) :=
    chain_of_forall₂ appends []
  -- Each member is put behind those before it, so that in the end all are there and in order.
  have all : members.foldl (fun front m ↦ front ++ [m]) [] = members := by
    rw [List.foldl_append_eq_append, List.nil_append, ← List.flatMap_def, List.flatMap_singleton']
  rw [all] at chain
  obtain ⟨tail, rfl, loop⟩ := members_ok encloses chain
  refine ⟨solid_bracket (.inr rfl), fun gap rest blank apart ↦ ?_⟩
  rw [List.cons_append, shownDocument, bind_ok (start_ok blank (by decide))]
  exact (bind_ok (advance_cons _ _)).trans ((bind_ok (remaining_eq _)).trans
    (bind_ok (loop _ rest (by simp))))

/-- **A printed document is read as what it shows**, from any printed form, if there is room for
it. -/
theorem reads_print {print : Nat → Json → String} (p : Printer print) {j : Json} {depth : Nat}
    (room : sizeOf j ≤ depth) (level : Nat) :
    Reads (document depth) (bytes (print level j)) j.shown := by
  -- On the room, not on the document: items and members need the reader with one level less.
  induction depth generalizing j level with
  | zero => cases j <;> simp at room
  | succ depth ih =>
    rw [document]
    cases j with
    | null =>
      rw [p.scalar level .null trivial, shown]
      exact reads_null
    | bool b =>
      rw [p.scalar level (.bool b) trivial, shown]
      exact reads_bool b
    | int n =>
      rw [p.scalar level (.int n) trivial, shown]
      exact reads_number ⟨_, _, _, _, numberText_toString n⟩
    | float32 x =>
      rw [p.scalar level (.float32 x) trivial, shown]
      exact reads_shownNumber (isNumber_text rfl)
    | float64 x =>
      rw [p.scalar level (.float64 x) trivial, shown]
      exact reads_shownNumber (isNumber_text rfl)
    | text s =>
      rw [p.scalar level (.text s) trivial, shown]
      exact reads_quoted s
    | list items =>
      rw [shown, shownItems_eq]
      refine reads_items ?_ (p.list level items)
      rw [List.forall₂_map_left_iff, List.forall₂_map_right_iff, List.forall₂_same]
      intro j hj
      refine ih ?_ (level + 1)
      have := List.sizeOf_lt_of_mem hj
      simp at room
      omega
    | object members =>
      rw [shown, shownMembers_eq]
      refine reads_members ?_ (p.record level members)
      rw [List.forall₂_map_left_iff, List.forall₂_map_right_iff, List.forall₂_same]
      intro m hm
      refine ⟨rfl, ih ?_ (level + 1)⟩
      have := List.sizeOf_lt_of_mem hm
      obtain ⟨k, j⟩ := m
      simp at room this ⊢
      omega

/-- **Documents that are printed alike show the same**, in whatever forms they are printed. -/
theorem shown_eq_of_print {print print' : Nat → Json → String} (p : Printer print)
    (p' : Printer print') {j j' : Json} {level level' : Nat}
    (h : print level j = print' level' j') : j.shown = j'.shown := by
  -- One reader with room for both documents takes the text for what either of them shows.
  have read := (reads_print p (Nat.le_max_left (sizeOf j) (sizeOf j')) level).alone
  rw [h, (reads_print p' (Nat.le_max_right (sizeOf j) (sizeOf j')) level').alone] at read
  exact (Prod.mk.inj (Except.ok.inj read)).1.symm

/-! ## Telling documents apart -/

theorem shown_bool_iff {b b' : Bool} : (Json.bool b).shown = (Json.bool b').shown ↔ b = b' := by
  rw [shown, shown, Shown.bool.injEq]

theorem shown_text_iff {s s' : String} : (Json.text s).shown = (Json.text s').shown ↔ s = s' := by
  rw [shown, shown, Shown.text.injEq]

theorem shown_int_iff {n n' : Int} : (Json.int n).shown = (Json.int n').shown ↔ n = n' := by
  refine ⟨fun h ↦ ?_, fun h ↦ by rw [h]⟩
  rw [shown, shown, Shown.number.injEq] at h
  obtain ⟨sign, digits, -, -⟩ := (h ▸ numberText_toString n).unique (numberText_toString n')
  have value := congrArg digitsValue digits
  rw [digitsValue_decimal, digitsValue_decimal] at value
  rw [decide_eq_decide] at sign
  omega

theorem shownNumber_inj {f : Format} {l : Layout} (plus : l.plus = "+") {x y : Binary f}
    (hx : x.isFinite = true) (hy : y.isFinite = true)
    (h : shownNumber x.isFinite (l.text x) = shownNumber y.isFinite (l.text y)) : x = y := by
  rw [hx, hy, shownNumber, shownNumber, if_pos rfl, if_pos rfl, Shown.number.injEq] at h
  exact text_inj plus hx hy h

theorem shown_object_iff {ms ms' : List (String × Json)} :
    (Json.object ms).shown = (Json.object ms').shown ↔ shownMembers ms = shownMembers ms' := by
  rw [shown, shown, Shown.object.injEq]

theorem shownMembers_cons_iff {k : String} {j j' : Json} {ms ms' : List (String × Json)} :
    shownMembers ((k, j) :: ms) = shownMembers ((k, j') :: ms') ↔
      j.shown = j'.shown ∧ shownMembers ms = shownMembers ms' := by
  rw [shownMembers, shownMembers, List.cons.injEq, Prod.mk.injEq, eq_self, true_and]

section Collections

variable {α : Type} {write : α → Json}

theorem shown_list_inj {as bs : List α}
    (inj : ∀ a ∈ as, ∀ b ∈ bs, (write a).shown = (write b).shown → a = b)
    (h : (Json.list (as.map write)).shown = (Json.list (bs.map write)).shown) : as = bs := by
  rw [shown, shown, Shown.list.injEq] at h
  induction as generalizing bs with
  | nil =>
    cases bs with
    | nil => rfl
    | cons b bs => cases h
  | cons a as ih =>
    cases bs with
    | nil => cases h
    | cons b bs =>
      rw [List.map_cons, List.map_cons, shownItems, shownItems] at h
      obtain ⟨first, others⟩ := List.cons.inj h
      rw [inj a List.mem_cons_self b List.mem_cons_self first, ih (fun a ha b hb ↦
        inj a (List.mem_cons_of_mem _ ha) b (List.mem_cons_of_mem _ hb)) others]

theorem shownMembers_inj {es es' : List (String × α)}
    (inj : ∀ e ∈ es, ∀ e' ∈ es', (write e.2).shown = (write e'.2).shown → e.2 = e'.2)
    (h : shownMembers (es.map fun e ↦ (e.1, write e.2)) =
      shownMembers (es'.map fun e ↦ (e.1, write e.2))) : es = es' := by
  induction es generalizing es' with
  | nil =>
    cases es' with
    | nil => rfl
    | cons e' es' => cases h
  | cons e es ih =>
    cases es' with
    | nil => cases h
    | cons e' es' =>
      rw [List.map_cons, List.map_cons, shownMembers, shownMembers] at h
      obtain ⟨first, others⟩ := List.cons.inj h
      obtain ⟨key, value⟩ := Prod.mk.inj first
      rw [Prod.ext key (inj e List.mem_cons_self e' List.mem_cons_self value), ih (fun a ha b hb ↦
        inj a (List.mem_cons_of_mem _ ha) b (List.mem_cons_of_mem _ hb)) others]

end Collections

end IdlLinker.Json
