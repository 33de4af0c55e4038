import IdlLinker.Proofs.Numbering
import Mathlib.Algebra.Group.Nat.Defs
import Mathlib.Logic.Function.Basic

/-!
# Building a module in place

`Graph.module` walks first and assembles afterwards, when everything has its number. A module can
also be built in one pass, and this module says how. A declaration gets an empty node when it is
first met, its position is remembered under its key, and only then is the node filled in, by looking
into what the declaration names. A declaration that leads back to itself finds its own position, of
a node that is not filled in yet.

## What can go wrong

Nothing in such a pass is safe by its form. A node is written at a position, which may be out of
bounds. The constants and enum members have no empty form, so that a slot is reserved for them; at
the end it may turn out that a slot was never filled. Positions are words of 32 bits and may run
out. Each of these is a *panic* here, which ends the construction and is not an error of the graph.
That no panic happens is shown in `IdlLinker.Proofs.Construction.Outcome`.

The functions call each other through keys. So that they can be defined one after the other, what
finds a declaration under a key is left open in them (`Resolver`), and is put in for as many levels
as are asked for (`resolver`).
-/

namespace IdlLinker.Construction

open IdlLinker.Graph IdlLinker.Link

/-! ## Nodes -/

/-- What an arena holds. A constant or enum member may be missing still. -/
abbrev Cell : Space → Type
  | .structs => Module.Struct
  | .unions => Module.Union
  | .enums => Module.Enum
  | .interfaces => Module.Interface
  | .constants => Option Module.Constant
  | .members => Option Module.Member

/-- The arena of the types of a kind. -/
abbrev arenaOf : TypeTag → Space
  | .struct => .structs
  | .union => .unions
  | .enum => .enums
  | .interface => .interfaces

/-- A node before anything is filled in. -/
def Cell.empty : (space : Space) → Cell space
  | .structs => ⟨"", "", .here, .empty, [], [], []⟩
  | .unions => ⟨"", "", .here, .empty, []⟩
  | .enums => ⟨"", "", .here, .empty, none, []⟩
  | .interfaces => ⟨"", "", .here, .empty, none, [], [], []⟩
  | .constants => none
  | .members => none

/-- What a type has before its members are looked at. -/
structure Header where
  name : String
  spec : String
  owner : Owner
  attributes : Attributes

/-- Fills in the header of a type. An interface has no full name, and has its service with it. -/
def Header.fillIn (h : Header) : (d : TypeDecl) → Cell (arenaOf d.tag) → Cell (arenaOf d.tag)
  | .struct _, x =>
    { x with name := h.name, spec := h.spec, owner := h.owner, attributes := h.attributes }
  | .union _, x =>
    { x with name := h.name, spec := h.spec, owner := h.owner, attributes := h.attributes }
  | .enum _, x =>
    { x with name := h.name, spec := h.spec, owner := h.owner, attributes := h.attributes }
  | .interface d, x =>
    { x with
      name := h.name
      spec := h.name
      owner := h.owner
      attributes := h.attributes
      service? := d.service? }

/-! ## The site -/

/-- How far a construction has come. -/
structure Site where
  arenas : (space : Space) → Arena (Cell space) := fun _ ↦ .empty
  /-- The types that were met, and where their nodes are. -/
  typeIds : Table TypeKey UserType := .empty
  constantIds : Table ValueKey ConstantId := .empty
  memberIds : Table ValueKey MemberId := .empty

/-- A step that was taken on the assumption that it could not fail. -/
inductive Panic where
  /-- A new item has no position of 32 bits. -/
  | overflow (size : Nat)
  | outOfBounds (e : OutOfBounds)
  /-- A slot was reserved and never filled. -/
  | unfilled (index : Nat)

/-- How a construction ends early. -/
inductive Halt where
  /-- The graph is at fault. -/
  | refused (e : LinkError)
  | panicked (p : Panic)
  /-- The levels that were asked for did not suffice. -/
  | tooDeep

/-- A part of a construction. -/
abbrev Build := StateT Site (Except Halt)

section Steps

variable {α : Type}

/-- Ends with an error of the graph. -/
def refuse (e : LinkError) : Build α := fun _ ↦ .error (.refused e)

/-- Ends with a panic. -/
def abort (p : Panic) : Build α := fun _ ↦ .error (.panicked p)

/-- The site with another arena. -/
def Site.setArena (σ : Site) (space : Space) (a : Arena (Cell space)) : Site :=
  { σ with arenas := Function.update σ.arenas space a }

/-- Adds an empty node, and gives its position. -/
def allocate (space : Space) : Build Nat := fun σ ↦
  let a := σ.arenas space
  if a.size < 2 ^ 32 then
    .ok (a.size, σ.setArena space (a.alloc (Cell.empty space)).1)
  else abort (.overflow a.size) σ

def read (space : Space) (i : Nat) : Build (Cell space) := fun σ ↦
  match (σ.arenas space).get i with
  | .error e => abort (.outOfBounds e) σ
  | .ok x => .ok (x, σ)

def write (space : Space) (i : Nat) (f : Cell space → Cell space) : Build Unit := fun σ ↦
  match (σ.arenas space).modify i f with
  | .error e => abort (.outOfBounds e) σ
  | .ok a => .ok ((), σ.setArena space a)

/-- The item of a slot, which has to be filled. -/
def filled : Nat × Option α → Except Panic α
  | (i, none) => .error (.unfilled i)
  | (_, some x) => .ok x

/-- The items of the slots, all of which have to be filled. -/
def finish (slots : Arena (Option α)) : Except Panic (Arena α) := do
  let items ← slots.indexed.mapM filled
  return ⟨items⟩

end Steps

/-! ## What a declaration names -/

/-- How declarations are found, and built where they are met for the first time. -/
structure Resolver where
  type : TypeKey → Build UserType
  constant : ValueKey → Build ConstantId
  member : ValueKey → Graph.Enumerator → Build MemberId

section Parts

variable (g : Graph) (s : Scope) (r : Resolver)

/-- Where a declaration lives. -/
def owner (d : Info) : Build Owner :=
  match d.source? with
  | none => refuse (.missingSource d.shortName)
  | some info =>
    if info.fileName = s.file then pure .here
    else
      match s.module.transitiveImports.find? info.fileName with
      | some _ => pure (.imported ⟨s.module.transitiveImports.index info.fileName⟩)
      | none => refuse (.notImported d.shortName info.fileName s.file)

/-- The header of a declaration. -/
def header (d : Info) : Build Header := do
  let owner ← owner s d
  return ⟨d.shortName, d.fullName?.getD d.shortName, owner, attributesOf d.attributes?⟩

/-- The type in which a declaration is nested. -/
def parent (d : Info) : Build (Option UserType) :=
  match d.container? with
  | none => pure none
  | some key => do
    let u ← r.type key
    return some u

def typed (tag : TypeTag) (key : TypeKey) : Build (Id (arenaOf tag)) := do
  let u ← r.type key
  if u.tag = tag then return ⟨u.index⟩ else refuse (.typeMismatch key tag u.tag)

def kind : TypeExpr → Build Kind
  | .primitive p => return ⟨.primitive p, false⟩
  | .string nullable => return ⟨.string, nullable⟩
  | .handle nullable h => return ⟨.handle h, nullable⟩
  | .array nullable length element => do
    let element ← kind element
    let length? := if 0 < length then some (UInt32.ofNat length.toInt.toNat) else none
    return ⟨.array element.ty element.nullable length?, nullable⟩
  | .map nullable key value => do
    let key ← kind key
    let value ← kind value
    return ⟨.map key.ty key.nullable value.ty value.nullable, nullable⟩
  | .reference x =>
    if x.isRequest then do
      let id ← typed r .interface x.key
      return ⟨.request id, x.nullable⟩
    else do
      let u ← r.type x.key
      return ⟨.user u, x.nullable⟩

/-- The declared value under a key. -/
def valueRef (key : ValueKey) : Build ValueRef :=
  match g.values.find? key with
  | none => refuse (.missingValue key)
  | some (.constant _) => do
    let id ← r.constant key
    return .constant id
  | some (.enumerator d) => do
    let id ← r.member key d
    return .member id

def value : ValueExpr → Build Value
  | .literal l => if l.isRepresentable then pure (.literal l) else refuse (.unrepresentable l)
  | .builtin b => return .builtin b
  | .reference x => do
    let target ← valueRef g r x.key
    return .reference target

/-- What a struct field holds when nothing is given for it. -/
def fieldDefault : Option FieldDefault → Build (Option Module.FieldDefault)
  | none => return none
  | some .keyword => return some .keyword
  | some (.value v) => do
    let v ← value g r v
    return some (.value v)

def structField (f : StructField) : Build Module.Field := do
  let default? ← fieldDefault g r f.default?
  let kind ← kind r f.type
  return ⟨f.info.shortName, kind, Numbering.ordinal? f.info, default?,
    attributesOf f.info.attributes?⟩

def unionField (f : UnionField) : Build Module.Field := do
  let kind ← kind r f.type
  return ⟨f.info.shortName, kind, Numbering.ordinal? f.info, none,
    attributesOf f.info.attributes?⟩

/-- The value with which a source gives the number of an enum member. -/
def initializer : Option ValueExpr → Build (Option Value)
  | none => return none
  | some v => do
    let v ← value g r v
    return some v

def enumerator (d : Graph.Enumerator) : Build Module.Enumerator := do
  let value? ← initializer g r d.initializer?
  return ⟨d.info.shortName, attributesOf d.info.attributes?, d.number, value?⟩

/-- The parameters that the fields of a struct stand for. -/
def parameters (d : Graph.Struct) : Build (List Module.Parameter) :=
  d.fields.mapM fun f ↦ do
    let kind ← kind r f.type
    return ⟨f.info.shortName, kind, Numbering.ordinal? f.info, attributesOf f.info.attributes?⟩

/-- The parameters of a response. -/
def response : Option Graph.Struct → Build (Option (List Module.Parameter))
  | none => return none
  | some d => do
    let parameters ← parameters r d
    return some parameters

def method (m : Graph.Method) : Build Module.Method := do
  let parameters ← parameters r m.parameters
  let response? ← response r m.response?
  return ⟨m.info.shortName, m.ordinal, attributesOf m.info.attributes?, parameters, response?⟩

/-- The declarations nested in another. -/
def contained (d : Info) : Build (List EnumId × List ConstantId) :=
  match d.contained? with
  | none => return ([], [])
  | some c => do
    let enums ← c.enums.mapM (typed r .enum)
    let constants ← c.constants.mapM r.constant
    return (enums, constants)

/-! ## Declarations -/

/-- Fills in the members of a type. The parent of an enum comes before its members, since the enum
members that are used as values have their parent from there. -/
def members (i : Nat) : TypeDecl → Build Unit
  | .struct d => do
    let fields ← d.fields.mapM (structField g r)
    write .structs i ({ · with fields })
    let nested ← contained r d.info
    write .structs i ({ · with enums := nested.1, constants := nested.2 })
  | .union d => do
    let fields ← d.fields.mapM (unionField r)
    write .unions i ({ · with fields })
  | .enum d => do
    let parent? ← parent r d.info
    write .enums i ({ · with parent? })
    let fields ← d.values.mapM (enumerator g r)
    write .enums i ({ · with fields })
  | .interface d => do
    let methods ← d.methods.entries.mapM fun m ↦ method r m.2
    write .interfaces i ({ · with methods })
    let nested ← contained r d.info
    write .interfaces i ({ · with enums := nested.1, constants := nested.2 })

/-- The type under a key. -/
def type (key : TypeKey) : Build UserType := do
  match (← get).typeIds.find? key with
  | some u => return u
  | none =>
    match g.types.find? key with
    | none => refuse (.missingType key)
    | some d =>
      -- Whatever leads back to this key from here on finds the position.
      let i ← allocate (arenaOf d.tag)
      modify fun σ ↦ { σ with typeIds := σ.typeIds.insert key (.ofTag d.tag i) }
      let header ← header s d.info
      write (arenaOf d.tag) i (header.fillIn d)
      members g r i d
      return .ofTag d.tag i

/-- What a constant is. -/
def constantOf (d : Graph.Constant) : Build Module.Constant := do
  let owner ← owner s d.info
  let kind ← kind r d.type
  let value ← value g r d.value
  let parent? ← parent r d.info
  return ⟨d.info.shortName, owner, kind, value, parent?⟩

def constant (key : ValueKey) : Build ConstantId := do
  match (← get).constantIds.find? key with
  | some id => return id
  | none =>
    match g.values.find? key with
    | none => refuse (.missingValue key)
    | some (.enumerator _) => refuse (.valueMismatch key .constant .enumMember)
    | some (.constant d) =>
      let i ← allocate .constants
      modify fun σ ↦ { σ with constantIds := σ.constantIds.insert key ⟨i⟩ }
      let c ← constantOf g s r d
      write .constants i fun _ ↦ some c
      return ⟨i⟩

/-- An enum member that is used as a value. It belongs where its enum does, and is told so by the
node of the enum as it is at this time. -/
def member (key : ValueKey) (d : Graph.Enumerator) : Build MemberId := do
  match (← get).memberIds.find? key with
  | some id => return id
  | none =>
    let i ← allocate .members
    modify fun σ ↦ { σ with memberIds := σ.memberIds.insert key ⟨i⟩ }
    let enum ← typed r .enum d.enum
    -- The enum may be under construction still. Its header is there by then, its parent only once
    -- it has been resolved.
    let node ← read .enums enum.index
    write .members i fun _ ↦
      some ⟨d.info.shortName, enum, node.owner, s.module.namespaceOf node.owner, node.parent?⟩
    return ⟨i⟩

/-- Finds declarations that are nested at most so many levels deep. -/
def resolver : Nat → Resolver
  | 0 => ⟨fun _ _ ↦ .error .tooDeep, fun _ _ ↦ .error .tooDeep, fun _ _ _ ↦ .error .tooDeep⟩
  | n + 1 =>
    let r := resolver n
    ⟨type g s r, constant g s r, member s r⟩

/-! ## Files -/

/-- The top-level declarations of a file, in a module without arenas. -/
def topLevel (top : TopLevel) : Build Module := do
  let constants ← top.constants.mapM r.constant
  let interfaces ← top.interfaces.mapM (typed r .interface)
  let structs ← top.structs.mapM (typed r .struct)
  let unions ← top.unions.mapM (typed r .union)
  let enums ← top.enums.mapM (typed r .enum)
  return { s.module with constants, enums, structs, unions, interfaces }

end Parts

/-- The declarations that were built, when all slots are filled. -/
def Site.declarations (σ : Site) : Except Panic Module.Declarations := do
  let constants ← finish (σ.arenas .constants)
  let members ← finish (σ.arenas .members)
  return {
    structs := σ.arenas .structs
    unions := σ.arenas .unions
    enums := σ.arenas .enums
    interfaces := σ.arenas .interfaces
    constants
    members }

/-- No chain of declarations that lead to each other for the first time is longer. -/
def levels (g : Graph) : Nat := g.types.size + 2 * g.values.size + 1

/-- Builds the module of one file of a graph. -/
def build (g : Graph) (f : FileId) : Except Halt Module :=
  match g.files.find? f with
  | none => .error (.refused (.missingFile f))
  | some source =>
    match transitiveImports g source with
    | .error e => .error (.refused e)
    | .ok imports =>
      let s : Scope := ⟨f, outline source imports⟩
      match topLevel s (resolver g s (levels g)) (source.declared?.getD {}) {} with
      | .error halt => .error halt
      | .ok (m, σ) =>
        match σ.declarations with
        | .error p => .error (.panicked p)
        | .ok declarations => .ok { m with declarations }

end IdlLinker.Construction
