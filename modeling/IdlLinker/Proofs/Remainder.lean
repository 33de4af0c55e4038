import IdlLinker.Proofs.Json.Taken

/-!
# What comes after the first value

Loading stops at the end of the first value of a document. So what is accepted begins with a value
of the shape, and that value alone would have been loaded as well; what comes after it is not looked
at (`loadFrom_eq_ok_iff`). An input that is accepted is therefore a document if and only if blanks
are all that is left of it: a second graph after the first one, or anything else, goes unnoticed.

Where the first value ends does not depend on the shape, because passing over a value stops there
too. That is how a document, which has only blanks after its value, is compared with what the loader
took.

## What is not claimed

The members that a shape does not know are passed over, and the strings in them need not be text
(`IsValue`). A document in this sense is JSON up to the bytes in such strings.
-/

namespace IdlLinker.Json

open Reader

variable {input text text' rest rest' : List UInt8}

/-- An input is one value, with blanks around it. -/
def IsDocument (input : List UInt8) : Prop :=
  ∃ gap text gap', Blank gap ∧ IsValue text ∧ Blank gap' ∧ input = gap ++ (text ++ gap')

/-- A value is what an input begins with, blanks apart, and there the rest comes after it. -/
structure FirstValue (input text rest : List UInt8) : Prop where
  value : IsValue text
  ends : Ends text rest
  exists_gap : ∃ gap, Blank gap ∧ input = gap ++ (text ++ rest)

namespace FirstValue

theorem skip_eq_ok (h : FirstValue input text rest) : skip input = .ok ((), rest) := by
  obtain ⟨gap, blank, rfl⟩ := h.exists_gap
  exact h.value.skip_ok h.ends blank

/-- **There is only one first value.** -/
theorem unique (h : FirstValue input text rest) (h' : FirstValue input text' rest') :
    text = text' ∧ rest = rest' := by
  -- Passing over a value says where the first one ends; blanks say where it begins.
  have skipped := h.skip_eq_ok
  rw [h'.skip_eq_ok] at skipped
  obtain rfl := (Prod.mk.inj (Except.ok.inj skipped)).2
  obtain ⟨gap, blank, same⟩ := h.exists_gap
  obtain ⟨gap', blank', rfl⟩ := h'.exists_gap
  rw [← List.append_assoc, ← List.append_assoc] at same
  replace same := List.append_cancel_right same
  obtain ⟨b, u, rfl, solid, -⟩ := h.value.begins
  obtain ⟨b', u', rfl, solid', -⟩ := h'.value.begins
  rcases List.append_eq_append_iff.mp same with ⟨more, rfl, eq⟩ | ⟨more, rfl, eq⟩
  · have noGap := Blank.eq_nil (fun c hc ↦ blank c (List.mem_append_right gap' hc)) eq solid'
    subst noGap
    exact ⟨eq.symm, rfl⟩
  · have noGap := Blank.eq_nil (fun c hc ↦ blank' c (List.mem_append_right gap hc)) eq solid
    subst noGap
    exact ⟨eq, rfl⟩

/-- **An input is a document when blanks are all that comes after its first value.** -/
theorem isDocument_iff (h : FirstValue input text rest) : IsDocument input ↔ Blank rest := by
  constructor
  · rintro ⟨gap, text', rest', blank, value, blank', rfl⟩
    have apart : Apart (rest' ++ []) := .after .nil blank'
    rw [List.append_nil] at apart
    have first : FirstValue (gap ++ (text' ++ rest')) text' rest' :=
      ⟨value, apart.ends text', gap, blank, rfl⟩
    obtain ⟨-, rfl⟩ := h.unique first
    exact blank'
  · intro blank'
    obtain ⟨gap, blank, rfl⟩ := h.exists_gap
    exact ⟨gap, text, rest, blank, h.value, blank', rfl⟩

end FirstValue

variable {α : Type} {shape : Shape α} {a : α}

/-! ## Loading the first value -/

theorem exists_firstValue (loads : shape.loadBytes input = .ok a) :
    ∃ text rest, FirstValue input text rest ∧ shape.loadBytes text = .ok a := by
  obtain ⟨rest, read⟩ := exists_read_of_loadBytes loads
  obtain ⟨gap, text, blank, takes, ends, rfl⟩ := shape.takesValues nestingLimit _ a rest read
  refine ⟨text, rest, ⟨takes.value, ends, gap, blank, rfl⟩, ?_⟩
  rw [Shape.loadBytes, Shape.load, takes.reads.alone]
  rfl

/-- The first value of an input is loaded, whatever comes after it. -/
theorem FirstValue.loadBytes (h : FirstValue input text rest)
    (loads : shape.loadBytes text = .ok a) : shape.loadBytes input = .ok a := by
  obtain ⟨rest', read⟩ := exists_read_of_loadBytes loads
  obtain ⟨gap, text', blank, takes, ends, same⟩ := shape.takesValues nestingLimit _ a rest' read
  -- The text alone is its own first value, so loading it took all of it.
  have whole : FirstValue text text [] := ⟨h.value, Apart.nil.ends text, [], .nil, by simp⟩
  obtain ⟨rfl, -⟩ := whole.unique ⟨takes.value, ends, gap, blank, same⟩
  obtain ⟨gap, blank, rfl⟩ := h.exists_gap
  rw [Shape.loadBytes, Shape.load, takes.read gap rest blank h.ends]
  rfl

/-! ## Every way to load -/

/-- What a document is loaded from. -/
inductive Source where
  | text (s : String)
  | bytes (bs : List UInt8)
  /-- What a source gave until it ended, or the reason of its failure. -/
  | drained (outcome : Except String (List UInt8))

/-- The bytes that there are to load. -/
def Source.content : Source → Except String (List UInt8)
  | .text s => .ok (Json.bytes s)
  | .bytes bs => .ok bs
  | .drained outcome => outcome

/-- Loads a value by the function for the source. -/
def Shape.loadFrom (shape : Shape α) : Source → Except LoadError α
  | .text s => shape.loadText s
  | .bytes bs => shape.loadBytes bs
  | .drained outcome => shape.loadDrained outcome

theorem loadFrom_eq_ok {source : Source} :
    shape.loadFrom source = .ok a ↔
      ∃ input, source.content = .ok input ∧ shape.loadBytes input = .ok a := by
  cases source with
  | text s => simp [Shape.loadFrom, Source.content, Shape.loadText, Json.bytes]
  | bytes bs => simp [Shape.loadFrom, Source.content]
  | drained outcome =>
    cases outcome with
    | error reason =>
      constructor
      · rintro ⟨⟩
      · rintro ⟨input, ⟨⟩, -⟩
    | ok bs =>
      constructor
      · intro loads
        exact ⟨bs, rfl, loads⟩
      · rintro ⟨input, ⟨⟩, loads⟩
        exact loads

/-- **Loading takes the first value and ignores the rest.** A source is loaded exactly when the
first value of its content is, by itself; so what was loaded is a document exactly when nothing but
blanks comes after that value. -/
theorem loadFrom_eq_ok_iff (shape : Shape α) (source : Source) (a : α) :
    shape.loadFrom source = .ok a ↔
      ∃ input text rest, source.content = .ok input ∧ FirstValue input text rest ∧
        shape.loadBytes text = .ok a ∧ (IsDocument input ↔ Blank rest) := by
  rw [loadFrom_eq_ok]
  constructor
  · rintro ⟨input, content, loads⟩
    obtain ⟨text, rest, first, loads⟩ := exists_firstValue loads
    exact ⟨input, text, rest, content, first, loads, first.isDocument_iff⟩
  · rintro ⟨input, text, rest, content, first, loads, -⟩
    exact ⟨input, content, first.loadBytes loads⟩

/-- A graph, and another one after it. -/
def twoGraphs : String :=
  "\x7b\x7d \x7b\"files\":\x7b\"a\":\x7b\"file_name\":\"a\"\x7d\x7d\x7d"

/-- The second graph is not missed. -/
theorem loadFrom_twoGraphs :
    Graph.shape.loadFrom (.text twoGraphs) = .ok {} ∧ ¬IsDocument (bytes twoGraphs) := by
  have empty : IsValue [0x7b, 0x7d] := Bracket.object.isValue (.empty .nil) (by simp)
  have first : FirstValue (bytes twoGraphs) [0x7b, 0x7d] ((bytes twoGraphs).drop 2) :=
    ⟨empty, ends_of_begins rfl _ _, [], .nil, by decide +kernel⟩
  refine ⟨by with_unfolding_all rfl, fun document ↦ ?_⟩
  have blank := first.isDocument_iff.mp document
  exact absurd (blank 0x7b (by decide +kernel)) (by decide)

end IdlLinker.Json
