import IdlLinker.Proofs.Construction.Site

/-!
# Numbers do not change

A construction hands out positions while it is under way; the walk counts the visits when it is
over. Both give the same numbers, because a walk only ever adds to the end of what it has visited:
the number of a declaration is settled when the declaration is visited, and stays what it is as the
walk goes on. `Visits.Precedes` says that one state of a walk comes before another, as far as
numbers are concerned, and what is shown here is that everything a numbering says about visited
declarations is said alike by every later numbering.
-/

namespace IdlLinker

open IdlLinker.Graph

namespace Link

open Construction

variable {g : Graph} {s : Scope} {v v' w : Visits} {key : String} {space : Space}

/-! ## Numbers by arena -/

namespace Numbering

/-- The number of a key in an arena. -/
def number (n : Numbering) (space : Space) (key : String) : Nat := (n.keysIn space).idxOf key

/-- The arenas as they are in the end, in the form in which they are built. -/
def arena (n : Numbering) : (space : Space) → Arena (Cell space)
  | .structs => ⟨n.structs.values.map n.struct⟩
  | .unions => ⟨n.unions.values.map n.union⟩
  | .enums => ⟨n.enums.values.map n.enum⟩
  | .interfaces => ⟨n.interfaces.values.map n.interface⟩
  | .constants => ⟨n.constants.values.map fun d ↦ some (n.constant d)⟩
  | .members => ⟨n.members.entries.map fun e ↦ some (n.member e.1 e.2)⟩

theorem keysIn_arenaOf (n : Numbering) (tag : TypeTag) : n.keysIn (arenaOf tag) = n.keysOf tag := by
  cases tag <;> rfl

theorem size_arena (n : Numbering) (space : Space) :
    (n.arena space).size = (n.keysIn space).length := by
  cases space <;> simp [arena, keysIn, Arena.size, Table.keys, Table.values]

theorem keys_select_insert {α β : Type} {p : α → Option β} {t : Table TypeKey α} {a : α}
    (new : t.find? key = none) :
    (select p (t.insert key a)).keys =
      (select p t).keys ++ if (p a).isSome then [key] else [] := by
  rw [select, Table.entries_insert_of_new new, List.filterMap_append]
  cases h : p a <;> simp [select, Table.keys, h]

theorem number_lt (listed : key ∈ (ofVisits s v).keysIn space) :
    (ofVisits s v).number space key < ((ofVisits s v).keysIn space).length :=
  List.idxOf_lt_length_of_mem listed

theorem userType_eq (hv : v.Distinct) {d : TypeDecl} (visited : v.types.find? key = some d) :
    (ofVisits s v).userType key =
      .ofTag d.tag ((ofVisits s v).number (arenaOf d.tag) key) := by
  rw [userType_of_visited hv visited, number, keysIn_arenaOf]

end Numbering

open IdlLinker.Link.Numbering

/-! ## Sound visits -/

/-- What is visited is in the graph, and what is said about visits is about visited declarations. -/
structure Visits.Sound (g : Graph) (v : Visits) : Prop where
  distinct : v.Distinct
  types : ∀ {key d}, v.types.find? key = some d → g.types.find? key = some d
  constants : ∀ {key d}, v.constants.find? key = some d → g.values.find? key = some (.constant d)
  members : ∀ {key d}, v.members.find? key = some d → g.values.find? key = some (.enumerator d)
  unplaced : ∀ {key}, key ∈ v.unplaced → key ∈ v.types.keys
  stray : ∀ {key}, key ∈ v.stray → key ∈ v.members.keys

/-! ## Earlier and later -/

/-- One state of a walk comes before another: the visits of the one are the first visits of the
other. -/
structure Visits.Precedes (g : Graph) (v w : Visits) : Prop where
  types : v.types.entries <+: w.types.entries
  constants : v.constants.entries <+: w.constants.entries
  members : v.members.entries <+: w.members.entries
  /-- The later one is sound. -/
  sound : w.Sound g

namespace Visits.Precedes

theorem refl (h : v.Sound g) : v.Precedes g v :=
  ⟨List.prefix_rfl, List.prefix_rfl, List.prefix_rfl, h⟩

theorem trans (h : v.Precedes g v') (h' : v'.Precedes g w) : v.Precedes g w :=
  ⟨h.types.trans h'.types, h.constants.trans h'.constants, h.members.trans h'.members, h'.sound⟩

theorem of_log {e : Log.Event} (h : (v.log e).Precedes g w) : v.Precedes g w :=
  ⟨h.types, h.constants, h.members, h.sound⟩

theorem keysIn (h : v.Precedes g w) :
    (ofVisits s v).keysIn space <+: (ofVisits s w).keysIn space := by
  cases space with
  | constants => exact h.constants.map _
  | members => exact h.members.map _
  | _ => exact (h.types.filterMap _).map _

theorem mem_keysIn (h : v.Precedes g w) (listed : key ∈ (ofVisits s v).keysIn space) :
    key ∈ (ofVisits s w).keysIn space :=
  h.keysIn.subset listed

theorem mem_members (h : v.Precedes g w) (listed : key ∈ v.members.keys) : key ∈ w.members.keys :=
  (h.members.map _).subset listed

/-- **The number of a visited declaration does not change.** -/
theorem number (h : v.Precedes g w) (listed : key ∈ (ofVisits s v).keysIn space) :
    (ofVisits s w).number space key = (ofVisits s v).number space key := by
  have first : (ofVisits s v).keysIn space <+: (ofVisits s w).keysIn space := h.keysIn
  obtain ⟨more, same⟩ := first
  rw [Numbering.number, Numbering.number, ← same, List.idxOf_append_of_mem listed]

theorem userType (h : v.Precedes g w) (hv : v.Sound g) {d : TypeDecl}
    (visited : v.types.find? key = some d) :
    (ofVisits s w).userType key = (ofVisits s v).userType key := by
  have listed : key ∈ (ofVisits s v).keysIn (arenaOf d.tag) := by
    rw [keysIn_arenaOf]
    exact (mem_keysOf_iff hv.distinct).mpr ⟨d, visited, rfl⟩
  rw [userType_eq h.sound.distinct (Table.find?_of_prefix h.types visited),
    userType_eq hv.distinct visited, h.number listed]

end Visits.Precedes

/-! ## What a visit adds -/

theorem mem_keysIn_arenaOf (hv : v.Distinct) {d : TypeDecl}
    (visited : v.types.find? key = some d) : key ∈ (ofVisits s v).keysIn (arenaOf d.tag) := by
  rw [keysIn_arenaOf]
  exact (mem_keysOf_iff hv).mpr ⟨d, visited, rfl⟩

theorem keysIn_visitType {d : TypeDecl} (new : v.types.find? key = none) (space : Space) :
    (ofVisits s (v.visitType key d)).keysIn space =
      (ofVisits s v).keysIn space ++ if space = arenaOf d.tag then [key] else [] := by
  -- The kind of the type decides which of the four arenas of types gets the key.
  cases space with
  | constants => cases d <;> exact (List.append_nil _).symm
  | members => cases d <;> exact (List.append_nil _).symm
  | _ => cases d <;> exact keys_select_insert new

theorem keysIn_visitConstant {d : Graph.Constant} (new : v.constants.find? key = none)
    (space : Space) :
    (ofVisits s (v.visitConstant key d)).keysIn space =
      (ofVisits s v).keysIn space ++ if space = .constants then [key] else [] := by
  cases space with
  | constants => exact Table.keys_insert_of_new new
  | _ => exact (List.append_nil _).symm

theorem keysIn_visitMember {d : Graph.Enumerator} (new : v.members.find? key = none)
    (space : Space) :
    (ofVisits s (v.visitMember key d)).keysIn space =
      (ofVisits s v).keysIn space ++ if space = .members then [key] else [] := by
  cases space with
  | members => exact Table.keys_insert_of_new new
  | _ => exact (List.append_nil _).symm

/-- A visit gives a key the next number of an arena, and leaves the other numbers alone. -/
structure Visits.Adds (g : Graph) (s : Scope) (space : Space) (key : String) (v v' : Visits) :
    Prop where
  precedes : v.Precedes g v'
  keysIn : ∀ space', (ofVisits s v').keysIn space' =
    (ofVisits s v).keysIn space' ++ if space' = space then [key] else []
  unplaced : v'.unplaced = v.unplaced
  stray : v'.stray = v.stray

theorem mem_stray_placeMember {enum : TypeKey} {key' : ValueKey} :
    key' ∈ (v.placeMember key enum).stray ↔ (key' = key ∧ enum ∈ v.unplaced) ∨ key' ∈ v.stray := by
  rw [Visits.placeMember]
  dsimp only
  split
  · rename_i left
    rw [List.mem_cons, and_iff_left left]
  · rename_i placed
    exact (or_iff_right fun h ↦ placed h.2).symm

section

variable (hv : v.Sound g)
include hv

theorem Visits.Sound.visitType {d : TypeDecl} (found : g.types.find? key = some d) :
    (v.visitType key d).Sound g where
  distinct := { hv.distinct with types := Table.nodup_keys_insert _ _ hv.distinct.types }
  types h := by
    rcases Table.of_find?_insert h with ⟨rfl, rfl⟩ | h
    · exact found
    · exact hv.types h
  constants := hv.constants
  members := hv.members
  unplaced h := Table.mem_keys_insert_of_mem (hv.unplaced h)
  stray := hv.stray

theorem Visits.Sound.visitConstant {d : Graph.Constant}
    (found : g.values.find? key = some (.constant d)) : (v.visitConstant key d).Sound g where
  distinct := { hv.distinct with constants := Table.nodup_keys_insert _ _ hv.distinct.constants }
  types := hv.types
  constants h := by
    rcases Table.of_find?_insert h with ⟨rfl, rfl⟩ | h
    · exact found
    · exact hv.constants h
  members := hv.members
  unplaced := hv.unplaced
  stray := hv.stray

theorem Visits.Sound.visitMember {d : Graph.Enumerator}
    (found : g.values.find? key = some (.enumerator d)) : (v.visitMember key d).Sound g where
  distinct := { hv.distinct with members := Table.nodup_keys_insert _ _ hv.distinct.members }
  types := hv.types
  constants := hv.constants
  members h := by
    rcases Table.of_find?_insert h with ⟨rfl, rfl⟩ | h
    · exact found
    · exact hv.members h
  unplaced := hv.unplaced
  stray h := Table.mem_keys_insert_of_mem (hv.stray h)

theorem Visits.Sound.comeBack : v.comeBack.Sound g :=
  { hv with
    distinct := { hv.distinct with }
    unplaced := fun h ↦ hv.unplaced (List.mem_of_mem_drop h) }

theorem Visits.Sound.log (e : Log.Event) : (v.log e).Sound g :=
  { hv with distinct := { hv.distinct with } }

theorem Visits.Sound.placeMember (listed : key ∈ v.members.keys) (enum : TypeKey) :
    (v.placeMember key enum).Sound g := by
  refine { hv with distinct := { hv.distinct with }, stray := fun {key'} h ↦ ?_ }
  rcases mem_stray_placeMember.mp h with ⟨rfl, -⟩ | h
  · exact listed
  · exact hv.stray h

theorem adds_visitType {d : TypeDecl} (new : v.types.find? key = none)
    (found : g.types.find? key = some d) :
    Visits.Adds g s (arenaOf d.tag) key v (v.visitType key d) where
  precedes :=
    ⟨⟨_, (Table.entries_insert_of_new new).symm⟩, List.prefix_rfl, List.prefix_rfl,
      hv.visitType found⟩
  keysIn := keysIn_visitType new
  unplaced := rfl
  stray := rfl

theorem adds_visitConstant {d : Graph.Constant} (new : v.constants.find? key = none)
    (found : g.values.find? key = some (.constant d)) :
    Visits.Adds g s .constants key v (v.visitConstant key d) where
  precedes :=
    ⟨List.prefix_rfl, ⟨_, (Table.entries_insert_of_new new).symm⟩, List.prefix_rfl,
      hv.visitConstant found⟩
  keysIn := keysIn_visitConstant new
  unplaced := rfl
  stray := rfl

theorem adds_visitMember {d : Graph.Enumerator} (new : v.members.find? key = none)
    (found : g.values.find? key = some (.enumerator d)) :
    Visits.Adds g s .members key v (v.visitMember key d) where
  precedes :=
    ⟨List.prefix_rfl, List.prefix_rfl, ⟨_, (Table.entries_insert_of_new new).symm⟩,
      hv.visitMember found⟩
  keysIn := keysIn_visitMember new
  unplaced := rfl
  stray := rfl

end

end Link

end IdlLinker
