import IdlLinker.Proofs.Imports
import IdlLinker.Proofs.Relocation
import IdlLinker.Proofs.Renaming
import IdlLinker.Proofs.Selection

/-!
# Descriptions of imported files

A file that is imported is described in the module of its importer, and it has a module of its own.
Generators join the two, so the description has to say what the module says. It does: a description
is the heading of the module and nothing besides (`Module.describe`), whatever the options, and
under the name that the file has in the graph.

The two never come from the same place. A description is made from the graph while the importer is
linked, and the paths in it are relocated as part of the importer; the module is made when the file
is linked itself. What they have in common is the file in the graph, and that relocation does the
same to a path wherever it stands.
-/

namespace IdlLinker

open IdlLinker.Graph IdlLinker.Link

namespace Module

/-! ## Headings -/

/-- What a module says of its file, without what the file imports and declares. -/
def heading (m : Module) : Module where
  name := m.name
  specifiedName := m.specifiedName
  path := m.path
  moduleNamespace := m.moduleNamespace
  attributes := m.attributes

/-- What an importer is to say of the file of a module. -/
def describe (m : Module) : Import Module := ⟨m.name, m.moduleNamespace, m.heading⟩

theorem isHeading_heading (m : Module) : m.heading.IsHeading :=
  ⟨rfl, rfl, rfl, rfl, rfl, rfl, rfl, rfl⟩

/-! ## Relocation -/

theorem heading_relocate (root : String) (m : Module) :
    (m.relocate root).heading = m.heading.relocate root := by
  rw [relocate_eq, relocate_eq]
  rfl

/-- To describe a file is to describe it as it is seen from a directory. -/
theorem describe_relocate (root : String) (m : Module) :
    (m.relocate root).describe = m.describe.relocate root := by
  rw [describe, heading_relocate, relocate_eq]
  rfl

end Module

namespace LinkOptions

variable (options : LinkOptions)

theorem keys_place (m : Module) :
    (options.place m).transitiveImports.keys = m.transitiveImports.keys := by
  rw [place]
  split
  · rfl
  · rw [Module.relocate_eq, Table.keys_mapValues]

/-- What options do to a module they do to the description of its file. -/
theorem find?_place {m m' : Module} {n : FileId}
    (h : m.transitiveImports.find? n = some m'.describe) :
    (options.place m).transitiveImports.find? n = some (options.place m').describe := by
  simp only [place]
  split
  · exact h
  · rw [Module.relocate_eq, Table.find?_mapValues, h, Option.map_some, Module.describe_relocate]

end LinkOptions

/-! ## What an importer says -/

section

variable {g : Graph} {f : FileId} {m : Module}

theorem exists_file_of_module (h : g.module f = .ok m) :
    ∃ source, g.files.find? f = some source ∧ m.describe = importOf source ∧
      transitiveImports g source = .ok m.transitiveImports := by
  obtain ⟨source, imports, v, links, rfl⟩ := module_eq_ok_iff.mp h
  exact ⟨source, links.file, rfl, links.closed⟩

/-- A module describes every file that its imports lead to as the module of that file would. -/
theorem find?_transitiveImports {n : FileId} {m' : Module} (h : g.module f = .ok m)
    (h' : g.module n = .ok m') (path : g.LeadsTo f n) :
    m.transitiveImports.find? n = some m'.describe := by
  obtain ⟨source, file, -, closed⟩ := exists_file_of_module h
  obtain ⟨source', file', described', -⟩ := exists_file_of_module h'
  obtain ⟨d, found, described, -⟩ := (listsImports file closed).described n path
  rw [import?, file'] at described
  rw [found, described', Except.ok.inj described]

end

/-- **An importer describes a file as the module of the file does.** Where two files are selected
and both have modules, and the imports of the one lead to the other, the module of the one lists the
other under its name in the graph, once, with the name, the namespace and the heading of the module
of the other, and with nothing besides. -/
theorem describes_selected {g : Graph} {options : LinkOptions} {a b : FileId} {ma mb : Module}
    (ha : (g.linkEach options).outcomes.find? a = some (.ok ma))
    (hb : (g.linkEach options).outcomes.find? b = some (.ok mb)) (path : g.LeadsTo a b) :
    ∃ d, ma.transitiveImports.find? b = some d ∧
      (∀ d', (b, d') ∈ ma.transitiveImports.entries → d' = d) ∧
      d = mb.describe ∧ d.module.IsHeading := by
  obtain ⟨m, linked, rfl⟩ := g.exists_module_of_find?_outcomes options ha
  obtain ⟨m', linked', rfl⟩ := g.exists_module_of_find?_outcomes options hb
  obtain ⟨source, file, -, closed⟩ := exists_file_of_module linked
  have found := options.find?_place (find?_transitiveImports linked linked' path)
  have once : (options.place m).transitiveImports.keys.Nodup := by
    rw [options.keys_place]
    exact (listsImports file closed).once
  refine ⟨_, found, fun d' listed ↦ ?_, rfl, (options.place m').isHeading_heading⟩
  have found' := (Table.find?_eq_some_iff once).mpr listed
  exact Option.some.inj (found'.symm.trans found)

/-- Of the files that import each other, two, as they are seen from a directory. -/
def LinkOptions.beside : LinkOptions := { root? := some "b", files := ["d", "a"] }

theorem describes_selected_tangle :
    ∃ ma md, (Graph.tangle.linkEach .beside).outcomes.find? "a" = some (.ok ma) ∧
      (Graph.tangle.linkEach .beside).outcomes.find? "d" = some (.ok md) ∧
      Graph.tangle.LeadsTo "a" "d" ∧
      ∃ d, ma.transitiveImports.find? "d" = some d ∧
        (∀ d', ("d", d') ∈ ma.transitiveImports.entries → d' = d) ∧
        d = md.describe ∧ d.module.IsHeading := by
  have selected (file : FileId) (h : file ∈ ["d", "a"]) :
      (Graph.tangle.linkEach .beside).outcomes.find? file =
        some ((Graph.tangle.module file).map LinkOptions.beside.place) :=
    Graph.tangle.find?_outcomes .beside h
  obtain ⟨ma, linked⟩ := exists_module_of_isSome (g := Graph.tangle) (f := "a") (by cbv)
  obtain ⟨md, linked'⟩ := exists_module_of_isSome (g := Graph.tangle) (f := "d") (by cbv)
  have ha := selected "a" (by simp)
  have hd := selected "d" (by simp)
  rw [linked] at ha
  rw [linked'] at hd
  have path : Graph.tangle.LeadsTo "a" "d" :=
    .head (b := "b") ⟨_, rfl, by decide⟩ (.single ⟨_, rfl, by decide⟩)
  exact ⟨_, _, ha, hd, path, describes_selected ha hd path⟩

end IdlLinker
