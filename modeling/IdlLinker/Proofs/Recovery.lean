import IdlLinker.Proofs.Descriptions
import IdlLinker.Proofs.Documents
import IdlLinker.Proofs.References
import IdlLinker.Proofs.WellFormed

/-!
# Recovering modules from their documents

A printed module loses nothing: modules that are printed alike are equal, even if they were linked
from different graphs and printed in different forms. So there is a decoder that recovers modules
from what is printed (`decode_printed`).

Only a literal without a JSON form could be lost, and a link lets none through. Every value in a
module is the image of one that its file reaches in the graph, and a file that can be linked reaches
no such literal (`WellFormed.literals`). The modules that describe the imports hold no values.

The decoder is a choice function and computes nothing. What it adds to injectivity is that a single
function serves for all graphs and for both printed forms, without being told from which of them a
text is.
-/

namespace IdlLinker

open IdlLinker.Graph IdlLinker.Link IdlLinker.Json

variable {g : Graph} {f : FileId} {m : Module} {ρ : Naming}

/-! ## Values of a module -/

theorem ValueImage.isPrintable {v : ValueExpr} {v' : Value} (image : ValueImage g ρ v v')
    (finite : ∀ l, v = .literal l → g.ReachesLiteral f l) (wellFormed : WellFormed g f) :
    v'.IsPrintable := by
  rintro l rfl
  cases image
  exact Literal.isRepresentable_iff.mpr (wellFormed.literals l (finite l rfl))

/-- The values in a faithful module have JSON forms, because those in the graph have. -/
theorem Faithful.isPrintable (h : Faithful g f m ρ) (wellFormed : WellFormed g f) :
    m.declarations.IsPrintable where
  structs s hs fd hf := by
    obtain ⟨i, there⟩ := List.getElem?_of_mem hs
    obtain ⟨key, d, -, reached, image⟩ := h.exists_struct there
    obtain ⟨field, hfield, field'⟩ := exists_of_forall₂ image.fields hf
    intro default present v hv
    obtain ⟨default', hd, value⟩ := exists_of_rel field'.default (Option.mem_toList.mpr present)
    rw [hv] at value
    cases value with
    | value value =>
      refine value.isPrintable (fun l hl ↦ .type reached (.structDefault hfield ?_)) wellFormed
      rw [hd, hl]
  unions u hu fd hf := by
    obtain ⟨i, there⟩ := List.getElem?_of_mem hu
    obtain ⟨key, d, -, -, image⟩ := h.exists_union there
    obtain ⟨field, -, field'⟩ := exists_of_forall₂ image.fields hf
    -- The fields of a union have no defaults.
    intro default present
    rw [field'.default] at present
    cases present
  enums e he member hm := by
    obtain ⟨i, there⟩ := List.getElem?_of_mem he
    obtain ⟨key, d, -, reached, image⟩ := h.exists_enum there
    obtain ⟨source, hsource, member'⟩ := exists_of_forall₂ image.fields hm
    intro v present
    obtain ⟨initializer, hi, value⟩ := exists_of_rel member'.value (Option.mem_toList.mpr present)
    refine value.isPrintable (fun l hl ↦ .type reached (.enumInitializer hsource ?_)) wellFormed
    rw [hi, hl]
  constants c hc := by
    obtain ⟨i, there⟩ := List.getElem?_of_mem hc
    obtain ⟨key, d, -, reached, image⟩ := h.exists_constant there
    exact image.value.isPrintable (fun l hl ↦ .constant reached hl) wellFormed

/-- A heading declares nothing, so that nothing in it could lack a JSON form. -/
theorem Module.IsHeading.isPrintable (h : m.IsHeading) : m.IsPrintable := by
  refine .mk ?_ ?_
  · rw [h.declarations]
    constructor <;> exact List.forall_mem_nil _
  · rw [h.transitiveImports]
    exact List.forall_mem_nil _

/-- **Every value in a module of a file has a JSON form.** -/
theorem isPrintable_of_module (h : g.module f = .ok m) : m.IsPrintable := by
  obtain ⟨source, imports, v, links, rfl⟩ := module_eq_ok_iff.mp h
  refine .mk (links.faithful.isPrintable links.wellFormed) fun e he ↦ ?_
  -- A file that is described may be unfit to be linked: its description is a heading all the same.
  have found := (Table.find?_eq_some_iff (listsImports links.file links.closed).once).mpr he
  exact (import?_of_find? links.closed found).1.isPrintable

theorem Module.IsPrintable.relocate (root : String) (h : m.IsPrintable) :
    (m.relocate root).IsPrintable := by
  induction h with
  | @mk m here imports ih =>
    rw [relocate_eq]
    refine .mk here fun e he ↦ ?_
    obtain ⟨e', he', rfl⟩ := List.mem_map.mp he
    exact ih e' he'

theorem LinkOptions.isPrintable_place (options : LinkOptions) (h : m.IsPrintable) :
    (options.place m).IsPrintable := by
  rw [place]
  split
  · exact h
  · exact h.relocate _

/-! ## Printed modules -/

namespace Module

/-- A text is a printed form of a module, on one line or indented. -/
def PrintsAs (m : Module) (text : String) : Prop := m.toJson.compact = text ∨ m.toJson.pretty = text

/-- No text is a printed form of two different modules. -/
def ToldApart (m m' : Module) : Prop := ∀ text, m.PrintsAs text → m'.PrintsAs text → m = m'

theorem PrintsAs.exists_printer {text : String} (h : m.PrintsAs text) :
    ∃ print, Printer print ∧ print 0 m.toJson = text := by
  rcases h with same | same
  · exact ⟨_, printer_compact, same⟩
  · exact ⟨_, printer_indented, same⟩

theorem IsPrintable.toldApart {m' : Module} (h : m.IsPrintable) (h' : m'.IsPrintable) :
    m.ToldApart m' := by
  intro text printed printed'
  obtain ⟨print, p, rfl⟩ := printed.exists_printer
  obtain ⟨print', p', same⟩ := printed'.exists_printer
  exact h.eq_of_shown h' (shown_eq_of_print p p' same.symm)

open Classical in
/-- The printable module of which a text is a printed form, if there is one. -/
noncomputable def decode (text : String) : Option Module :=
  if found : ∃ m : Module, m.IsPrintable ∧ m.PrintsAs text then some found.choose else none

theorem IsPrintable.decode_eq {text : String} (h : m.IsPrintable) (printed : m.PrintsAs text) :
    decode text = some m := by
  have found : ∃ m : Module, m.IsPrintable ∧ m.PrintsAs text := ⟨m, h, printed⟩
  obtain ⟨h', printed'⟩ := found.choose_spec
  rw [decode, dif_pos found, h'.toldApart h text printed' printed]

end Module

/-- **Decoding recovers the modules** of all graphs, from either form and wherever their files are
placed. -/
theorem decode_printed (h : g.module f = .ok m) (options : LinkOptions) {text : String}
    (printed : (options.place m).PrintsAs text) : Module.decode text = some (options.place m) :=
  (options.isPrintable_place (isPrintable_of_module h)).decode_eq printed

/-- **A printed module loses nothing**: no text is a printed form of the modules of two files, of
whatever graphs, unless these are equal, and wherever the files are placed. -/
theorem toldApart_of_modules {g' : Graph} {f' : FileId} {m' : Module} (h : g.module f = .ok m)
    (h' : g'.module f' = .ok m') :
    m.ToldApart m' ∧
      ∀ options options' : LinkOptions, (options.place m).ToldApart (options'.place m') := by
  have printable := isPrintable_of_module h
  have printable' := isPrintable_of_module h'
  exact ⟨printable.toldApart printable', fun options options' ↦
    (options.isPrintable_place printable).toldApart (options'.isPrintable_place printable')⟩

/-- An interface with one method, which may have a response. -/
def Graph.answered (response? : Option Struct) : Graph where
  files := ⟨[("a", { fileName := "a", declared? := some { interfaces := ["a.I"] } })]⟩
  types := ⟨[
    ("a.I", .interface
      { info := { source? := some { fileName := "a" } }
        methods := Numbered.empty.insert 0 { response? } })]⟩

/-- A method without response and one with an empty response have different documents. -/
theorem toldApart_answered :
    ∃ m m', (Graph.answered none).module "a" = .ok m ∧
      (Graph.answered (some {})).module "a" = .ok m' ∧
      (m.ToldApart m' ∧
        ∀ options options' : LinkOptions, (options.place m).ToldApart (options'.place m')) ∧
      m.toJson.compact ≠ m'.toJson.compact ∧ m.toJson.pretty ≠ m'.toJson.pretty := by
  obtain ⟨m, linked⟩ := exists_module_of_isSome (g := Graph.answered none) (f := "a") (by cbv)
  obtain ⟨m', linked'⟩ :=
    exists_module_of_isSome (g := Graph.answered (some {})) (f := "a") (by cbv)
  have unanswered : ((Graph.answered none).module "a").toOption.bind (fun m ↦
      (m.interface? ⟨0⟩).map fun i ↦ i.methods.map Module.Method.hasResponse) =
        some [false] := by cbv
  have answered : ((Graph.answered (some {})).module "a").toOption.bind (fun m ↦
      (m.interface? ⟨0⟩).map fun i ↦ i.methods.map Module.Method.hasResponse) =
        some [true] := by cbv
  have different : m ≠ m' := by
    rintro rfl
    rw [linked'] at answered
    rw [linked, answered] at unanswered
    simp at unanswered
  have toldApart := toldApart_of_modules linked linked'
  exact ⟨m, m', linked, linked', toldApart,
    fun same ↦ different (toldApart.1 _ (.inl same) (.inl rfl)),
    fun same ↦ different (toldApart.1 _ (.inr same) (.inr rfl))⟩

end IdlLinker
