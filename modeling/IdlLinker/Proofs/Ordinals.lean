import IdlLinker.Graph.Load
import IdlLinker.Proofs.Faithful
import IdlLinker.Proofs.Json.Text

/-!
# Ordinals of methods

The methods of an interface are listed in a graph under their numbers, and the module has them in
the order of these numbers. The ordinal in the module is another matter: it is what the method
itself carries, and a method that carries none has the ordinal zero. So the ordinals of a module
increase exactly when those that the methods carry do (`InterfaceImage.increase_iff`), and nothing
else of the graph has a say in it.

They do where every method carries the number under which it is listed (`Interface.IsNumbered`).
Nothing makes a graph be like this, though, and a document may leave the ordinals out. Then the
methods come in order and their ordinals do not.
-/

namespace IdlLinker

open IdlLinker.Graph IdlLinker.Link

/-- The ordinals of the methods of an interface increase, so that no ordinal occurs twice. -/
def Module.Interface.OrdinalsIncrease (i : Module.Interface) : Prop :=
  i.methods.Pairwise fun method method' ↦ method.ordinal < method'.ordinal

instance (i : Module.Interface) : Decidable i.OrdinalsIncrease :=
  inferInstanceAs (Decidable (List.Pairwise _ _))

namespace Graph.Interface

variable (d : Graph.Interface)

/-- The ordinals that the methods carry increase in the order of the numbers under which the methods
are listed. -/
def OrdinalsIncrease : Prop := d.methods.entries.Pairwise fun e e' ↦ e.2.ordinal < e'.2.ordinal

/-- Every method carries the number under which it is listed. -/
def IsNumbered : Prop := ∀ e ∈ d.methods.entries, e.2.ordinal = e.1

variable {d}

theorem IsNumbered.ordinalsIncrease (h : d.IsNumbered) : d.OrdinalsIncrease :=
  d.methods.increasing.imp_of_mem fun he he' less ↦ by rwa [h _ he, h _ he']

end Graph.Interface

/-- The ordinals in a module are those that the methods carry, in the order in which the methods are
listed. -/
theorem InterfaceImage.ordinals {f : FileId} {m : Module} {ρ : Naming} {d : Graph.Interface}
    {i : Module.Interface} (image : InterfaceImage f m ρ d i) :
    i.methods.map Module.Method.ordinal = d.methods.entries.map fun e ↦ e.2.ordinal := by
  symm
  rw [← List.forall₂_eq_eq_eq, List.forall₂_map_left_iff, List.forall₂_map_right_iff]
  exact image.methods.imp fun _ _ method ↦ method.ordinal.symm

theorem InterfaceImage.increase_iff {f : FileId} {m : Module} {ρ : Naming}
    {d : Graph.Interface} {i : Module.Interface} (image : InterfaceImage f m ρ d i) :
    i.OrdinalsIncrease ↔ d.OrdinalsIncrease := by
  rw [Module.Interface.OrdinalsIncrease, Interface.OrdinalsIncrease,
    ← List.pairwise_map (f := Module.Method.ordinal) (R := (· < ·)), image.ordinals,
    List.pairwise_map]

/-- **The ordinals of the methods in a module increase exactly when those that the methods carry
do.** Every interface of a module is the picture of one that its file reaches. Its methods are those
of that interface, in the order of the numbers under which they are listed; and if they carry these
numbers, then their ordinals increase. -/
theorem ordinalsIncrease_iff {g : Graph} {f : FileId} {m : Module} (h : g.module f = .ok m) :
    ∃ ρ, Faithful g f m ρ ∧ ∀ id i, m.interface? id = some i →
      ∃ key d, ρ.type key = .interface id ∧ g.ReachesType f key (.interface d) ∧
        List.Forall₂
          (fun e method ↦ method.name = e.2.info.shortName ∧ method.ordinal = e.2.ordinal)
          d.methods.entries i.methods ∧
        (i.OrdinalsIncrease ↔ d.OrdinalsIncrease) ∧ (d.IsNumbered → i.OrdinalsIncrease) := by
  obtain ⟨source, imports, v, links, rfl⟩ := module_eq_ok_iff.mp h
  refine ⟨links.naming, links.faithful, fun id i found ↦ ?_⟩
  obtain ⟨key, d, same, reached, image⟩ := links.faithful.exists_interface found
  refine ⟨key, d, same, reached, ?_, image.increase_iff, fun numbered ↦ ?_⟩
  · exact image.methods.imp fun _ _ method ↦ ⟨method.name, method.ordinal⟩
  · exact image.increase_iff.mpr numbered.ordinalsIncrease

/-- An interface with two methods that carry their numbers, listed the other way round. -/
def Graph.numbered : Graph where
  files := ⟨[("a", { fileName := "a", declared? := some { interfaces := ["a.I"] } })]⟩
  types := ⟨[
    ("a.I", .interface
      { info := { source? := some { fileName := "a" } }
        methods := (Numbered.empty.insert 3 { ordinal := 3 }).insert 1 { ordinal := 1 } })]⟩

theorem ordinalsIncrease_numbered :
    ∃ m, Graph.numbered.module "a" = .ok m ∧
      ∃ ρ, Faithful Graph.numbered "a" m ρ ∧ ∀ id i, m.interface? id = some i →
        ∃ key d, ρ.type key = .interface id ∧
          Graph.numbered.ReachesType "a" key (.interface d) ∧
          List.Forall₂
            (fun e method ↦ method.name = e.2.info.shortName ∧ method.ordinal = e.2.ordinal)
            d.methods.entries i.methods ∧
          (i.OrdinalsIncrease ↔ d.OrdinalsIncrease) ∧ (d.IsNumbered → i.OrdinalsIncrease) := by
  obtain ⟨m, linked⟩ := exists_module_of_isSome (g := Graph.numbered) (f := "a") (by cbv)
  exact ⟨m, linked, ordinalsIncrease_iff linked⟩

/-- A document in which two methods are listed under the numbers one and two. The first carries its
number as its ordinal, and the second carries none. -/
def unnumbered : List UInt8 :=
  Json.bytes ("\x7b\"files\":\x7b\"a\":\x7b\"file_name\":\"a\"," ++
    "\"declared_objects\":\x7b\"interfaces\":[\"a.I\"]\x7d\x7d\x7d," ++
    "\"resolved_types\":\x7b\"a.I\":\x7b\"interface_type\":\x7b" ++
    "\"decl_data\":\x7b\"source_file_info\":\x7b\"file_name\":\"a\"\x7d\x7d," ++
    "\"methods\":\x7b\"1\":\x7b\"ordinal\":1\x7d,\"2\":\x7b\x7d\x7d\x7d\x7d\x7d\x7d")

/-- The graph of that document. -/
def Graph.unnumbered : Graph where
  files := ⟨[("a", { fileName := "a", declared? := some { interfaces := ["a.I"] } })]⟩
  types := ⟨[
    ("a.I", .interface
      { info := { source? := some { fileName := "a" } }
        methods := (Numbered.empty.insert 1 { ordinal := 1 }).insert 2 {} })]⟩

theorem loadBytes_unnumbered : Graph.shape.loadBytes unnumbered = .ok .unnumbered := by
  have read : (Graph.shape.loadBytes unnumbered).toOption.map
      (fun g ↦ (g.files.entries, g.types.entries, g.values.entries)) =
        some (Graph.unnumbered.files.entries, Graph.unnumbered.types.entries,
          Graph.unnumbered.values.entries) := by decide +kernel
  cases loaded : Graph.shape.loadBytes unnumbered with
  | error e =>
    rw [loaded] at read
    cases read
  | ok g =>
    rw [loaded] at read
    obtain ⟨⟨files⟩, ⟨types⟩, ⟨values⟩⟩ := g
    cases read
    rfl

/-- The method without an ordinal comes second and has the ordinal zero. -/
theorem not_ordinalsIncrease_unnumbered :
    ∃ g m i, Graph.shape.loadBytes unnumbered = .ok g ∧ g.module "a" = .ok m ∧
      m.interface? ⟨0⟩ = some i ∧ i.methods.map Module.Method.ordinal = [1, 0] ∧
      ¬i.OrdinalsIncrease := by
  have computed : ((Graph.unnumbered.module "a").toOption.bind fun m ↦
      (m.interface? ⟨0⟩).map fun i ↦ i.methods.map Module.Method.ordinal) = some [1, 0] := by cbv
  obtain ⟨m, linked⟩ := exists_module_of_isSome (g := Graph.unnumbered) (f := "a") (by cbv)
  rw [linked, Except.toOption, Option.bind_some] at computed
  obtain ⟨i, found, ordinals⟩ := Option.map_eq_some_iff.mp computed
  refine ⟨_, m, i, loadBytes_unnumbered, linked, found, ordinals, ?_⟩
  rw [Module.Interface.OrdinalsIncrease, ← List.pairwise_map (f := Module.Method.ordinal)
    (R := (· < ·)), ordinals]
  decide

end IdlLinker
