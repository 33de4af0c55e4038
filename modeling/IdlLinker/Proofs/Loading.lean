import IdlLinker.Proofs.Json.Printing
import IdlLinker.Proofs.Json.Recover
import IdlLinker.Proofs.Schema

/-!
# Loading what was written

A graph, or any part of one that is loaded by itself, is loaded again from what is written for it,
and from every spelling of it.

Whatever was loaded fits into a document (`Loadable.fits`), because the reader went no deeper. So
the writer goes no deeper either, and the reader comes to the end of what was written. Numbers are
the one thing that is not settled by the format: that a finite number is read back from its own text
is assumed of the numbers that occur in the value (`Floating.Rereads`). The assumption cannot be
dropped, for a number may be read back as its neighbour (`misread_tiny`). What is written with few
digits and a small exponent meets it always (`Floating.rereads_double`).

## Main results

* `loadText_write`: loading undoes writing, in both printed forms.
* `loadBytes_of_spells`: sparse, reordered and extended documents load alike.
-/

namespace IdlLinker

open Json Reader

variable {α : Type} {shape : Shape α} {a : α} {text : List UInt8}

theorem Loadable.fits (h : Loadable shape) (loads : shape.loadBytes text = .ok a) :
    shape.Fits nestingLimit a := by
  obtain ⟨rest, read⟩ := exists_read_of_loadBytes loads
  exact shape.yields_fits h.sound text a rest read

/-- Every spelling of a value that fits is loaded as the value. -/
theorem Loadable.loadBytes_eq_ok (h : Loadable shape) (fits : shape.Fits nestingLimit a)
    (exacts : ∀ x ∈ shape.floats a, x.Exact) {t : List UInt8} (spells : shape.Spells a t) :
    shape.loadBytes t = .ok a := by
  rw [Shape.loadBytes, Shape.load, (shape.reads h.sound fits exacts spells).alone]
  rfl

/-! ## Loading undoes writing -/

/-- **Loading undoes writing.** A value that was loaded, whatever the document, is loaded again from
what is written for it, if its floating point numbers are finite and finite numbers are read back
from their own text. -/
theorem loadText_write (h : Loadable shape) (loads : shape.loadBytes text = .ok a)
    (finite : ∀ x ∈ shape.floats a, x.isFinite = true)
    (rereads : ∀ x ∈ shape.floats a, x.isFinite = true → x.Rereads) :
    shape.loadText (shape.write a).compact = .ok a ∧
      shape.loadText (shape.write a).pretty = .ok a := by
  have exacts : ∀ x ∈ shape.floats a, x.Exact :=
    fun x hx ↦ ⟨finite x hx, rereads x hx (finite x hx)⟩
  have fits := h.fits loads
  exact ⟨h.loadBytes_eq_ok fits exacts (shape.spells_write printer_compact fits 0),
    h.loadBytes_eq_ok fits exacts (shape.spells_write printer_indented fits 0)⟩

/-- What a declaration has, with a tenth in two attributes, one for either width. -/
def Graph.Info.tenths : Graph.Info where
  attributes? := some [⟨"a", .float (.ofDecimal false 1 (-1))⟩,
    ⟨"b", .double (.ofDecimal false 1 (-1))⟩]

/-- A document of `Graph.Info.tenths`, in which only one of the numbers is written as it would
be. -/
def tenthsText : List UInt8 :=
  bytes ("\x7b\"attributes\":[" ++
    "\x7b\"key\":\"a\",\"value\":\x7b\"float_value\":0.1\x7d\x7d," ++
    "\x7b\"key\":\"b\",\"value\":\x7b\"double_value\":1e-1\x7d\x7d]\x7d")

theorem loadBytes_tenthsText : Graph.Info.shape.loadBytes tenthsText = .ok .tenths ∧
    ∀ x ∈ Graph.Info.shape.floats .tenths, x.isFinite = true ∧ x.Rereads := by
  decide +kernel

theorem loadText_write_tenths :
    Graph.Info.shape.loadText (Graph.Info.shape.write .tenths).compact = .ok .tenths ∧
      Graph.Info.shape.loadText (Graph.Info.shape.write .tenths).pretty = .ok .tenths := by
  obtain ⟨loads, numbers⟩ := loadBytes_tenthsText
  exact loadText_write .info loads (fun x hx ↦ (numbers x hx).1) fun x hx _ ↦ (numbers x hx).2

/-! ## Documents that load alike -/

/-- **Sparse, reordered and extended documents load alike.** Of a value that was loaded, the written
forms are spellings, and every spelling is loaded as the value: members that hold their default may
be left out of a record, the others may come in any order, and members with other names may be
added. -/
theorem loadBytes_of_spells (h : Loadable shape) (loads : shape.loadBytes text = .ok a)
    (finite : ∀ x ∈ shape.floats a, x.isFinite = true)
    (rereads : ∀ x ∈ shape.floats a, x.isFinite = true → x.Rereads) :
    shape.Spells a (bytes (shape.write a).compact) ∧
      shape.Spells a (bytes (shape.write a).pretty) ∧
      ∀ t, shape.Spells a t → shape.loadBytes t = .ok a := by
  have exacts : ∀ x ∈ shape.floats a, x.Exact :=
    fun x hx ↦ ⟨finite x hx, rereads x hx (finite x hx)⟩
  have fits := h.fits loads
  exact ⟨shape.spells_write printer_compact fits 0, shape.spells_write printer_indented fits 0,
    fun t spells ↦ h.loadBytes_eq_ok fits exacts spells⟩

/-- Another document of `Graph.Info.tenths`: it lacks the members that hold their defaults, it has a
note in front, and the value of an attribute comes before its key. -/
def sparse : List UInt8 :=
  bytes ("\x7b\"note\":[],\"attributes\":[" ++
    "\x7b\"value\":\x7b\"float_value\":0.1\x7d,\"key\":\"a\"\x7d," ++
    "\x7b\"value\":\x7b\"double_value\":0.1\x7d,\"key\":\"b\"\x7d]\x7d")

theorem spells_sparse : Graph.Info.shape.Spells .tenths sparse := by
  have name (s : String) : IsText s (bytes (quoted s)) := isText_quoted s
  have entry {key : String} {l : Literal} {t : List UInt8} (h : Literal.shape.Spells l t) :
      Graph.Attribute.shape.Spells ⟨key, l⟩ _ :=
    ⟨[("key", bytes (quoted key)), ("value", t)], [], [("value", t), ("key", bytes (quoted key))],
      .inl ⟨_, _, rfl, name key, .inl ⟨_, _, rfl, h, rfl⟩⟩, by simp, .swap _ _ _,
      _, .cons ⟨_, name _, .mk .nil .nil⟩ (.cons ⟨_, name _, .mk .nil .nil⟩ .nil),
      .parts .nil (.more .nil .nil (.stop .nil))⟩
  have single : Literal.shape.Spells (.float (.ofDecimal false 1 (-1))) _ :=
    ⟨_, rfl, _, .cons ⟨_, name _, .mk .nil .nil⟩ .nil, .parts .nil (.stop .nil)⟩
  have double : Literal.shape.Spells (.double (.ofDecimal false 1 (-1))) _ :=
    ⟨_, rfl, _, .cons ⟨_, name _, .mk .nil .nil⟩ .nil, .parts .nil (.stop .nil)⟩
  have note : ∀ m ∈ [("note", [0x5b, 0x5d])],
      m.1 ∉ ["short_name", "full_identifier", "declared_ordinal", "declaration_order", "attributes",
        "source_file_info", "container_type_key", "contained_declarations"] ∧ IsJson m.2 := by
    simpa using IsJson.list (by simp) (.empty .nil)
  have info : Graph.Info.shape.Spells .tenths _ :=
    ⟨[("attributes", _)], [("note", [0x5b, 0x5d])], [("note", _), ("attributes", _)],
      .inr ⟨rfl, .inr ⟨rfl, .inr ⟨rfl, .inr ⟨rfl, .inl ⟨_, _, rfl,
        ⟨_, .cons (entry single) (.cons (entry double) .nil),
          .parts .nil (.more .nil .nil (.stop .nil))⟩,
        .inr ⟨rfl, .inr ⟨rfl, .inr ⟨rfl, rfl⟩⟩⟩⟩⟩⟩⟩⟩,
      note, .swap _ _ _,
      _, .cons ⟨_, name _, .mk .nil .nil⟩ (.cons ⟨_, name _, .mk .nil .nil⟩ .nil),
      .parts .nil (.more .nil .nil (.stop .nil))⟩
  refine Eq.subst ?_ info
  decide +kernel

theorem loadBytes_sparse : Graph.Info.shape.loadBytes sparse = .ok .tenths := by
  obtain ⟨loads, numbers⟩ := loadBytes_tenthsText
  obtain ⟨-, -, alike⟩ := loadBytes_of_spells .info loads (fun x hx ↦ (numbers x hx).1)
    fun x hx _ ↦ (numbers x hx).2
  exact alike sparse spells_sparse

/-! ## A number that is not read back -/

/-- What `1e-24` is read as. It is a neighbour of the nearest number. -/
def Literal.tiny : Literal := .double ⟨0x3af357c299a88ea8⟩

/-- Another neighbour of `Literal.tiny`, and the number nearest to `1e-24`. -/
def Literal.nearTiny : Literal := .double ⟨0x3af357c299a88ea7⟩

theorem write_tiny :
    (Literal.shape.write .tiny).compact = "\x7b\"double_value\":1.0000000000000001e-24\x7d" := by
  decide +kernel

/-- Of a value that was loaded and has only finite numbers, the written form is a spelling. It need
not be loaded as the value. -/
theorem misread_tiny :
    Loadable Literal.shape ∧
      Literal.shape.loadBytes (bytes "\x7b\"double_value\":1e-24\x7d") = .ok .tiny ∧
      (∀ x ∈ Literal.shape.floats .tiny, x.isFinite = true) ∧
      Literal.shape.Spells .tiny (bytes (Literal.shape.write .tiny).compact) ∧
      Literal.shape.loadBytes (bytes (Literal.shape.write .tiny).compact) = .ok .nearTiny ∧
      Literal.nearTiny ≠ .tiny := by
  have loads : Literal.shape.loadBytes (bytes "\x7b\"double_value\":1e-24\x7d") = .ok .tiny := by
    decide +kernel
  have fits := Loadable.literal.fits loads
  have spelling := Literal.shape.spells_write printer_compact fits 0
  refine ⟨.literal, loads, by decide, spelling, ?_, by decide⟩
  rw [write_tiny]
  decide +kernel

end IdlLinker
