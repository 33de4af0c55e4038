import IdlLinker.Proofs.Construction.Numbers
import IdlLinker.Proofs.Faithful

/-!
# Numbers are ranks in a depth-first preorder

A graph of declarations is a graph in the ordinary sense: each key leads to the keys that its
declaration names, in the order in which they stand there. A traversal of this graph that goes down
before it goes on, and that passes over what it has come to before, lists every node once. The
number of a declaration is its rank in this list, among the declarations of its own kind.

## The order

`Preorder` is the traversal of any graph whose nodes have lists of successors, as a relation:
nothing is said about how it is run, and that it comes to an end is part of what is shown. It has at
most one outcome. `Graph.successors` says what a node leads to, and `Graph.roots` where a file
begins.

The walk of `Link.walk` does more than that: it checks sources, literals and kinds, and it goes to
the container of an enum by a task of its own. It keeps what is left to do on one list, while the
traversal finishes the successors of a node before it turns to the next one. So the proof reads the
list of tasks as a list of nodes, and cuts it where the successors end (`Preorder.split`).
-/

namespace IdlLinker

/-! ## Depth-first preorder -/

section

variable {α : Type} {successors : α → List α} {n : α} {ns ms seen mid order order' : List α}

/-- **The depth-first preorder of a graph.** Some nodes are gone through in turn, where others were
seen before: a node that was seen is passed over, and a new one is listed, followed by what its
successors lead to. -/
inductive Preorder (successors : α → List α) : List α → List α → List α → Prop where
  | done {seen : List α} : Preorder successors [] seen seen
  | old {n : α} {ns seen order : List α} (h : n ∈ seen) (rest : Preorder successors ns seen order) :
    Preorder successors (n :: ns) seen order
  | new {n : α} {ns seen mid order : List α} (h : n ∉ seen)
    (below : Preorder successors (successors n) (seen ++ [n]) mid)
    (rest : Preorder successors ns mid order) : Preorder successors (n :: ns) seen order

theorem Preorder.unique (h : Preorder successors ns seen order)
    (h' : Preorder successors ns seen order') : order = order' := by
  induction h generalizing order' with
  | done =>
    cases h'
    rfl
  | old mem _ ih =>
    cases h' with
    | old _ rest' => exact ih rest'
    | new fresh _ _ => exact absurd mem fresh
  | new fresh _ _ ihb ihr =>
    cases h' with
    | old mem _ => exact absurd mem fresh
    | new _ below' rest' =>
      obtain rfl := ihb below'
      exact ihr rest'

/-- To go through two lists is to go through the one and then through the other. -/
theorem Preorder.split (h : Preorder successors (ns ++ ms) seen order) :
    ∃ mid, Preorder successors ns seen mid ∧ Preorder successors ms mid order := by
  generalize both : ns ++ ms = nodes at h
  induction h generalizing ns with
  | done =>
    obtain ⟨rfl, rfl⟩ := List.append_eq_nil_iff.mp both
    exact ⟨_, .done, .done⟩
  | old mem rest ih =>
    cases ns with
    | nil =>
      subst both
      exact ⟨_, .done, .old mem rest⟩
    | cons n ns =>
      obtain ⟨rfl, tails⟩ := List.cons.inj both
      obtain ⟨mid, first, second⟩ := ih tails
      exact ⟨mid, .old mem first, second⟩
  | new fresh below rest _ ih =>
    cases ns with
    | nil =>
      subst both
      exact ⟨_, .done, .new fresh below rest⟩
    | cons n ns =>
      obtain ⟨rfl, tails⟩ := List.cons.inj both
      obtain ⟨mid, first, second⟩ := ih tails
      exact ⟨mid, .new fresh below first, second⟩

/-- A new node comes before its successors, and they come before the other nodes. -/
theorem Preorder.cons_of_append (fresh : n ∉ seen)
    (h : Preorder successors (successors n ++ ns) (seen ++ [n]) order) :
    Preorder successors (n :: ns) seen order := by
  obtain ⟨mid, below, rest⟩ := h.split
  exact .new fresh below rest

/-- The position of an element among those of its sort is the number of those before it. -/
theorem idxOf_map_filter {β : Type} [DecidableEq α] [DecidableEq β] {l : List α} {p : α → Bool}
    {k : α → β} {a : α} (mem : a ∈ l) (sort : p a = true)
    (inj : ∀ b ∈ l, p b = true → k b = k a → b = a) :
    ((l.filter p).map k).idxOf (k a) = (l.takeWhile (· ≠ a)).countP p := by
  induction l with
  | nil => exact absurd mem List.not_mem_nil
  | cons b l ih =>
    by_cases same : b = a
    · subst same
      simp [sort]
    · have ih := ih ((List.mem_cons.mp mem).resolve_left (Ne.symm same)) fun c hc ↦
        inj c (List.mem_cons_of_mem _ hc)
      rw [List.takeWhile_cons_of_pos (by simpa using same), List.countP_cons, ← ih]
      cases hb : p b with
      | false => rw [List.filter_cons_of_neg (by simp [hb])]; rfl
      | true =>
        have other : k b ≠ k a := fun eq ↦ same (inj b List.mem_cons_self hb eq)
        rw [List.filter_cons_of_pos hb, List.map_cons, List.idxOf_cons_ne _ other]
        rfl

end

/-! ## The graph of declarations -/

namespace Graph

/-- A key of one of the two tables. -/
inductive Node where
  | type (key : TypeKey)
  | value (key : ValueKey)
deriving DecidableEq

def Node.key : Node → String
  | .type key => key
  | .value key => key

/-- The keys in a type, from left to right. -/
def TypeExpr.nodes : TypeExpr → List Node
  | .primitive _ => []
  | .string _ => []
  | .handle _ _ => []
  | .array _ _ element => element.nodes
  | .map _ key value => key.nodes ++ value.nodes
  | .reference r => [.type r.key]

/-- The key in a value, if there is one. -/
def ValueExpr.nodes : ValueExpr → List Node
  | .reference r => [.value r.key]
  | _ => []

/-- The key in the default of a field, if there is one. -/
def FieldDefault.nodes : FieldDefault → List Node
  | .value v => v.nodes
  | .keyword => []

/-- The declarations nested in another: enums, then constants. -/
def Info.nodes (d : Info) : List Node :=
  (d.contained?.toList.flatMap Contained.enums).map .type ++
    (d.contained?.toList.flatMap Contained.constants).map .value

/-- The declaration that another is nested in, if there is one. -/
def Info.container (d : Info) : List Node := d.container?.toList.map .type

/-- The keys in parameters. -/
def Struct.parameterNodes (d : Struct) : List Node := d.fields.flatMap fun f ↦ f.type.nodes

/-- What the declaration of a type leads to. -/
def TypeDecl.successors : TypeDecl → List Node
  | .struct d =>
    d.fields.flatMap (fun f ↦ f.default?.toList.flatMap FieldDefault.nodes ++ f.type.nodes) ++
      d.info.nodes
  | .union d => d.fields.flatMap fun f ↦ f.type.nodes
  | .interface d =>
    d.methods.entries.flatMap (fun m ↦
      m.2.parameters.parameterNodes ++ m.2.response?.toList.flatMap Struct.parameterNodes) ++
      d.info.nodes
  | .enum d =>
    d.info.container ++ d.values.flatMap fun v ↦ v.initializer?.toList.flatMap ValueExpr.nodes

/-- What the declaration of a value leads to. -/
def ValueDecl.successors : ValueDecl → List Node
  | .constant d => d.type.nodes ++ d.value.nodes ++ d.info.container
  | .enumerator d => [.type d.enum]

/-- **What a node leads to, in order.** A key that leads nowhere has no successors. -/
def successors (g : Graph) : Node → List Node
  | .type key => (g.types.find? key).toList.flatMap TypeDecl.successors
  | .value key => (g.values.find? key).toList.flatMap ValueDecl.successors

/-- What a file lists: constants, interfaces, structs, unions and enums. -/
def TopLevel.nodes (d : TopLevel) : List Node :=
  d.constants.map .value ++ d.interfaces.map .type ++ d.structs.map .type ++ d.unions.map .type ++
    d.enums.map .type

/-- **Where a file begins.** -/
def roots (g : Graph) (f : FileId) : List Node :=
  ((g.files.find? f).bind SourceFile.declared?).toList.flatMap TopLevel.nodes

/-- The arena in which a node is numbered. -/
def space? (g : Graph) : Node → Option Space
  | .type key => (g.types.find? key).map fun d ↦
    match d with
    | .struct _ => .structs
    | .union _ => .unions
    | .enum _ => .enums
    | .interface _ => .interfaces
  | .value key => (g.values.find? key).map fun d ↦
    match d with
    | .constant _ => .constants
    | .enumerator _ => .members

/-- **The rank of a node in a list**: how many nodes of its arena come before it. -/
def rank (g : Graph) (order : List Node) (n : Node) : Nat :=
  (order.takeWhile (· ≠ n)).countP fun n' ↦ g.space? n' = g.space? n

end Graph

namespace Link

open IdlLinker.Graph IdlLinker.Link.Numbering Construction

/-! ## Requirements as nodes -/

/-- The node that a requirement is about, if it is about one. -/
def Requirement.node? : Requirement → Option Node
  | .source _ _ => none
  | .literal _ => none
  | .type key _ => some (.type key)
  | .container _ key => some (.type key)
  | .constant key => some (.value key)
  | .value key => some (.value key)

def nodesOf (rs : List Requirement) : List Node := rs.filterMap Requirement.node?

section

variable {rs rs' : List Requirement} {r : Requirement} {α : Type} {l : List α}

@[simp] theorem nodesOf_nil : nodesOf [] = [] := rfl

@[simp] theorem nodesOf_cons : nodesOf (r :: rs) = r.node?.toList ++ nodesOf rs := by
  cases h : r.node? <;> simp [nodesOf, h]

@[simp] theorem nodesOf_append : nodesOf (rs ++ rs') = nodesOf rs ++ nodesOf rs' :=
  List.filterMap_append

@[simp] theorem nodesOf_flatMap {k : α → List Requirement} :
    nodesOf (l.flatMap k) = l.flatMap fun a ↦ nodesOf (k a) :=
  List.filterMap_flatMap

theorem nodesOf_map {k : α → Requirement} {n : α → Node} (h : ∀ a, (k a).node? = some (n a)) :
    nodesOf (l.map k) = l.map n := by
  rw [nodesOf, List.filterMap_map, ← List.filterMap_eq_map]
  exact congrArg (List.filterMap · l) (funext h)

end

theorem nodesOf_type (t : TypeExpr) : nodesOf (requirementsOfType t) = t.nodes := by
  induction t with
  | array _ _ element ih => exact ih
  | map _ key value ihk ihv =>
    rw [requirementsOfType, nodesOf_append, ihk, ihv, TypeExpr.nodes]
  | _ => rfl

theorem nodesOf_value (v : ValueExpr) : nodesOf (requirementsOfValue v) = v.nodes := by
  cases v <;> rfl

theorem nodesOf_default (default? : Option FieldDefault) :
    nodesOf (requirementsOfDefault default?) = default?.toList.flatMap FieldDefault.nodes := by
  match default? with
  | none => rfl
  | some .keyword => rfl
  | some (.value v) =>
    rw [requirementsOfDefault, nodesOf_value, Option.toList_some, List.flatMap_singleton]
    rfl

theorem nodesOf_contained (d : Info) : nodesOf (requirementsOfContained d) = d.nodes := by
  rw [requirementsOfContained, Info.nodes]
  cases d.contained? with
  | none => rfl
  | some c =>
    rw [nodesOf_append, nodesOf_map fun _ ↦ rfl, nodesOf_map fun _ ↦ rfl, Option.toList_some,
      List.flatMap_singleton, List.flatMap_singleton]

theorem nodesOf_parameters (d : Struct) :
    nodesOf (requirementsOfParameters d) = d.parameterNodes := by
  simp only [requirementsOfParameters, nodesOf_flatMap, nodesOf_type, Struct.parameterNodes]

theorem nodesOf_method (m : Method) :
    nodesOf (requirementsOfMethod m) =
      m.parameters.parameterNodes ++ m.response?.toList.flatMap Struct.parameterNodes := by
  rw [requirementsOfMethod, nodesOf_append, nodesOf_parameters]
  cases m.response? with
  | none => rfl
  | some p => rw [nodesOf_parameters, Option.toList_some, List.flatMap_singleton]

theorem nodesOf_typeDecl (key : TypeKey) (d : TypeDecl) :
    nodesOf (requirementsOfTypeDecl key d) = d.successors := by
  cases d with
  | struct d =>
    simp only [requirementsOfTypeDecl, requirementOfSource, List.cons_append, nodesOf_cons,
      nodesOf_append, nodesOf_flatMap, nodesOf_default, nodesOf_type, nodesOf_contained,
      TypeDecl.successors]
    rfl
  | union d =>
    simp only [requirementsOfTypeDecl, requirementOfSource, nodesOf_cons, nodesOf_flatMap,
      nodesOf_type, TypeDecl.successors]
    rfl
  | enum d =>
    have container : nodesOf (d.info.container?.toList.map (.container key)) =
        d.info.container := nodesOf_map fun _ ↦ rfl
    simp only [requirementsOfTypeDecl, requirementOfSource, List.cons_append, nodesOf_cons,
      nodesOf_append, nodesOf_flatMap, container, nodesOf_value, TypeDecl.successors]
    rfl
  | interface d =>
    simp only [requirementsOfTypeDecl, requirementOfSource, List.cons_append, nodesOf_cons,
      nodesOf_append, nodesOf_flatMap, nodesOf_method, nodesOf_contained, TypeDecl.successors]
    rfl

theorem nodesOf_constant (d : Constant) :
    nodesOf (requirementsOfConstant d) = (ValueDecl.constant d).successors := by
  have container : nodesOf (d.info.container?.toList.map (.type · none)) = d.info.container :=
    nodesOf_map fun _ ↦ rfl
  simp only [requirementsOfConstant, requirementOfSource, List.cons_append, nodesOf_cons,
    nodesOf_append, nodesOf_type, nodesOf_value, container, ValueDecl.successors]
  rfl

theorem nodesOf_file (source : SourceFile) :
    nodesOf (requirementsOfFile source) = source.declared?.toList.flatMap TopLevel.nodes := by
  rw [requirementsOfFile]
  cases source.declared? with
  | none => rfl
  | some d =>
    have types (tag : TypeTag) (keys : List TypeKey) :
        nodesOf (keys.map (.type · (some tag))) = keys.map .type := nodesOf_map fun _ ↦ rfl
    have constants : nodesOf (d.constants.map .constant) = d.constants.map .value :=
      nodesOf_map fun _ ↦ rfl
    simp only [nodesOf_append, types, constants, Option.toList_some, List.flatMap_singleton,
      TopLevel.nodes]

/-! ## The walk as a traversal -/

/-- The node that a task goes to, if it goes to one. -/
def Task.node? : Task → Option Node
  | .meet r => r.node?
  | _ => none

/-- The nodes that there is still to go to. -/
def nodesAhead (tasks : List Task) : List Node := tasks.filterMap Task.node?

section

variable {g : Graph} {f : FileId} {s : Scope} {task : Task} {front rest tasks : List Task}
  {v v' final : Visits} {order : List Node} {key : String} {space : Space} {n : Node}

theorem nodesAhead_cons : nodesAhead (task :: tasks) = task.node?.toList ++ nodesAhead tasks := by
  cases h : task.node? <;> simp [nodesAhead, h]

theorem nodesAhead_append : nodesAhead (front ++ rest) = nodesAhead front ++ nodesAhead rest :=
  List.filterMap_append

theorem nodesAhead_map_meet (rs : List Requirement) : nodesAhead (rs.map .meet) = nodesOf rs :=
  List.filterMap_map ..

theorem nodesAhead_checks (key : TypeKey) (expected? : Option TypeTag) (actual : TypeTag) :
    nodesAhead (checks key expected? actual) = [] := by
  cases expected? <;> rfl

/-- A list of nodes has the visited keys of each arena in the order of their numbers. -/
def Visits.ListedAs (g : Graph) (s : Scope) (v : Visits) (order : List Node) : Prop :=
  ∀ space, (ofVisits s v).keysIn space =
    (order.filter fun n ↦ g.space? n = some space).map Node.key

theorem eq_of_key_eq {n' : Node} (h : g.space? n = some space) (h' : g.space? n' = some space)
    (same : n.key = n'.key) : n = n' := by
  cases n with
  | type key =>
    cases n' with
    | type key' => exact congrArg Node.type same
    | value key' =>
      obtain ⟨d, -, rfl⟩ := Option.map_eq_some_iff.mp h
      obtain ⟨d', -, spaces⟩ := Option.map_eq_some_iff.mp h'
      cases d <;> cases d' <;> cases spaces
  | value key =>
    cases n' with
    | type key' =>
      obtain ⟨d, -, rfl⟩ := Option.map_eq_some_iff.mp h
      obtain ⟨d', -, spaces⟩ := Option.map_eq_some_iff.mp h'
      cases d <;> cases d' <;> cases spaces
    | value key' => exact congrArg Node.value same

theorem Visits.ListedAs.mem_iff (h : v.ListedAs g s order) (hs : g.space? n = some space) :
    n ∈ order ↔ n.key ∈ (ofVisits s v).keysIn space := by
  rw [h space, List.mem_map]
  constructor
  · intro mem
    exact ⟨n, List.mem_filter.mpr ⟨mem, by simpa using hs⟩, rfl⟩
  · rintro ⟨n', mem, same⟩
    obtain ⟨mem, hs'⟩ := List.mem_filter.mp mem
    exact eq_of_key_eq (by simpa using hs') hs same ▸ mem

theorem Visits.ListedAs.snoc (h : v.ListedAs g s order) (hs : g.space? n = some space)
    (added : ∀ space', (ofVisits s v').keysIn space' =
      (ofVisits s v).keysIn space' ++ if space' = space then [n.key] else []) :
    v'.ListedAs g s (order ++ [n]) := by
  intro space'
  rw [added, h space', List.filter_append, List.map_append]
  by_cases same : space' = space
  · subst same
    simp [hs]
  · simp [hs, same, Ne.symm same]

/-- What a turn does to the traversal: the nodes ahead stay as they are, or the first one is passed
over, or it is listed and what it leads to comes next. -/
inductive Descends (g : Graph) (s : Scope) (task : Task) (front : List Task) (order : List Node)
    (v' : Visits) : Prop where
  | stay (nodes : nodesAhead front = task.node?.toList) (listed : v'.ListedAs g s order)
  | old {n : Node} (first : task.node? = some n) (mem : n ∈ order) (nodes : nodesAhead front = [])
    (listed : v'.ListedAs g s order)
  | new {n : Node} (first : task.node? = some n) (fresh : n ∉ order)
    (nodes : nodesAhead front = g.successors n) (listed : v'.ListedAs g s (order ++ [n]))

theorem space?_type {d : TypeDecl} (found : g.types.find? key = some d) :
    g.space? (.type key) = some (arenaOf d.tag) := by
  rw [space?, found]
  cases d <;> rfl

theorem space?_constant {d : Constant} (found : g.values.find? key = some (.constant d)) :
    g.space? (.value key) = some .constants := by
  rw [space?, found]
  rfl

theorem space?_member {d : Enumerator} (found : g.values.find? key = some (.enumerator d)) :
    g.space? (.value key) = some .members := by
  rw [space?, found]
  rfl

theorem Turn.descends (h : Turn g s task v front v') (hv : v.Distinct) (hr : v.Reached g f)
    (ho : v.ListedAs g s order) : Descends g s task front order v' := by
  cases h with
  | source => exact .stay rfl ho
  | literal => exact .stay rfl ho
  | typeAgain old =>
    refine .old rfl ?_ (nodesAhead_checks ..) ho
    exact (ho.mem_iff (space?_type (hr.types old).2)).mpr (mem_keysIn_arenaOf hv old)
  | @typeNew key _ d _ new found =>
    have fresh : Node.type key ∉ order := by
      rw [ho.mem_iff (space?_type found), keysIn_arenaOf, Node.key, mem_keysOf_iff hv, new]
      simp
    refine .new rfl fresh ?_ (ho.snoc (space?_type found) (keysIn_visitType new))
    rw [nodesAhead_append, nodesAhead_map_meet, nodesOf_typeDecl, nodesAhead_cons,
      nodesAhead_checks, Graph.successors, found, Option.toList_some, List.flatMap_singleton]
    exact List.append_nil _
  | container => exact .stay rfl ho
  | @constantAgain r key _ _ _ asks found old =>
    have first : (Task.meet r).node? = some (.value key) := by rcases asks with rfl | rfl <;> rfl
    refine .old first ?_ rfl ho
    exact (ho.mem_iff (space?_constant found)).mpr (Table.mem_keys_of_find? old)
  | @constantNew r key _ _ asks found new =>
    have first : (Task.meet r).node? = some (.value key) := by rcases asks with rfl | rfl <;> rfl
    have fresh : Node.value key ∉ order := by
      rw [ho.mem_iff (space?_constant found)]
      exact Table.find?_eq_none_iff.mp new
    refine .new first fresh ?_ (ho.snoc (space?_constant found) (keysIn_visitConstant new))
    rw [nodesAhead_append, nodesAhead_map_meet, nodesOf_constant, Graph.successors, found,
      Option.toList_some, List.flatMap_singleton]
    exact List.append_nil _
  | @memberAgain key _ _ _ found old =>
    refine .old rfl ?_ rfl ho
    exact (ho.mem_iff (space?_member found)).mpr (Table.mem_keys_of_find? old)
  | @memberNew key _ _ found new =>
    have fresh : Node.value key ∉ order := by
      rw [ho.mem_iff (space?_member found)]
      exact Table.find?_eq_none_iff.mp new
    refine .new rfl fresh ?_ (ho.snoc (space?_member found) (keysIn_visitMember new))
    rw [Graph.successors, found]
    rfl
  | _ => exact .stay rfl ho

/-- **A walk that comes to its end is a traversal.** -/
theorem Run.preorder (h : Run g s tasks v [] final) (hv : v.Distinct) (hr : final.Reached g f)
    (ho : v.ListedAs g s order) :
    ∃ order', Preorder g.successors (nodesAhead tasks) order order' ∧
      final.ListedAs g s order' := by
  generalize ended : ([] : List Task) = left at h
  induction h generalizing order with
  | refl =>
    subst ended
    exact ⟨order, .done, ho⟩
  | head first next ih =>
    have grows := first.grows.trans next.grows
    have reached : Visits.Reached g f _ :=
      ⟨hr.types ∘ grows.types, hr.constants ∘ grows.constants, hr.members ∘ grows.members⟩
    cases first.descends hv reached ho with
    | stay nodes listed =>
      obtain ⟨order', preorder, final⟩ := ih (first.distinct hv) hr listed ended
      rw [nodesAhead_append, nodes, ← nodesAhead_cons] at preorder
      exact ⟨order', preorder, final⟩
    | old node mem nodes listed =>
      obtain ⟨order', preorder, final⟩ := ih (first.distinct hv) hr listed ended
      rw [nodesAhead_append, nodes] at preorder
      rw [nodesAhead_cons, node]
      exact ⟨order', .old mem preorder, final⟩
    | new node fresh nodes listed =>
      obtain ⟨order', preorder, final⟩ := ih (first.distinct hv) hr listed ended
      rw [nodesAhead_append, nodes] at preorder
      rw [nodesAhead_cons, node]
      exact ⟨order', .cons_of_append fresh preorder, final⟩

theorem Visits.ListedAs.number (h : v.ListedAs g s order) (hs : g.space? n = some space)
    (visited : n.key ∈ (ofVisits s v).keysIn space) :
    (ofVisits s v).number space n.key = g.rank order n := by
  rw [Numbering.number, h space, rank, hs]
  refine idxOf_map_filter ((h.mem_iff hs).mpr visited) (by simpa using hs) fun n' _ hs' same ↦ ?_
  exact eq_of_key_eq (by simpa using hs') hs same

end

section

variable {g : Graph} {f : FileId} {source : SourceFile} {v : Visits}
  {imports : Table FileId (Module.Import Module)}

theorem listedAs_unbegun (s : Scope) : (unbegun f source imports).ListedAs g s [] := by
  intro space
  cases space <;> rfl

/-- A finished walk has visited everything in the preorder of the graph. -/
theorem Links.exists_preorder (h : Links g f source imports v) :
    ∃ order, Preorder g.successors (g.roots f) [] order ∧
      v.ListedAs g ⟨f, outline source imports⟩ order := by
  obtain ⟨order, preorder, listed⟩ :=
    h.run.preorder distinct_unbegun h.reached (listedAs_unbegun _)
  rw [start, nodesAhead_map_meet, nodesOf_file] at preorder
  rw [Graph.roots, h.file]
  exact ⟨order, preorder, listed⟩

end

end Link

open Link Construction

/-- **The numbers of a module are ranks.** Each key that the file reaches has, in the arena of its
declaration, its rank in a list of nodes as its position. -/
structure Ranked (g : Graph) (f : FileId) (ρ : Naming) (order : List Graph.Node) : Prop where
  types : ∀ key d, g.ReachesType f key d → ρ.type key = .ofTag d.tag (g.rank order (.type key))
  constants : ∀ key d, g.ReachesConstant f key d → ρ.constant key = ⟨g.rank order (.value key)⟩
  members : ∀ key d, g.ReachesMember f key d → ρ.member key = ⟨g.rank order (.value key)⟩

theorem Link.Links.ranked {g : Graph} {f : FileId} {source : Graph.SourceFile} {v : Visits}
    {imports : Table FileId (Module.Import Module)} {order : List Graph.Node}
    (h : Links g f source imports v) (listed : v.ListedAs g ⟨f, outline source imports⟩ order) :
    Ranked g f h.naming order where
  types key d reached := by
    have visited := h.find?_types_iff.mpr reached
    have number := listed.number (space?_type reached.2) (mem_keysIn_arenaOf h.distinct visited)
    rw [← number]
    exact Numbering.userType_eq h.distinct visited
  constants key d reached := by
    have visited := h.find?_constants_iff.mpr reached
    have number := listed.number (space?_constant reached.2) (Table.mem_keys_of_find? visited)
    rw [← number]
    rfl
  members key d reached := by
    have visited := h.find?_members_iff.mpr reached
    have number := listed.number (space?_member reached.2) (Table.mem_keys_of_find? visited)
    rw [← number]
    rfl

/-- **Numbers are ranks in the depth-first preorder.** The traversal from the declarations that the
file lists has an outcome, and only one; and the module is a faithful picture of what the file
reaches, in which each key stands for the declaration whose number is the rank of the key. -/
theorem exists_ranked {g : Graph} {f : FileId} {m : Module} (h : g.module f = .ok m) :
    ∃ order, (∀ order', Preorder g.successors (g.roots f) [] order' ↔ order' = order) ∧
      ∃ ρ, Faithful g f m ρ ∧ Ranked g f ρ order := by
  obtain ⟨source, imports, v, links, rfl⟩ := module_eq_ok_iff.mp h
  obtain ⟨order, preorder, listed⟩ := links.exists_preorder
  refine ⟨order, fun order' ↦ ?_, links.naming, links.faithful, links.ranked listed⟩
  constructor
  · intro preorder'
    exact preorder'.unique preorder
  · rintro rfl
    exact preorder

/-- The walk comes to the enum from its member, in the middle of the struct that it is nested in. -/
theorem exists_ranked_knot :
    ∃ m, Graph.knot.module "a" = .ok m ∧
      ∃ order, (∀ order', Preorder Graph.knot.successors (Graph.knot.roots "a") [] order' ↔
        order' = order) ∧ ∃ ρ, Faithful Graph.knot "a" m ρ ∧ Ranked Graph.knot "a" ρ order := by
  obtain ⟨m, linked⟩ : ∃ m, Graph.knot.module "a" = .ok m := exists_module_of_isSome (by cbv)
  exact ⟨m, linked, exists_ranked linked⟩

end IdlLinker
