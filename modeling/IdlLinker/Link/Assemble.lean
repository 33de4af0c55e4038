import IdlLinker.Link.Walk

/-!
# Assembling a module

When the walk is over, the order of the visits numbers the declarations: the first struct that was
visited is struct zero, and so on in each arena. Every declaration is then put together from its own
text in the graph, with each key in it replaced by the number of what the key leads to. Nothing can
fail here: what a declaration requires was met on the walk.

The numbers are the positions of the keys in the tables of visits, and assembling a module is a
function of those tables and of nothing else that happened on the walk. A key that was not visited
as what it is used as would get a position past the end; that this does not occur is proved of
finished walks and not checked here. So there is no error to report and no option to unwrap, and the
parts of a module can be compared with those of the graph one by one.
-/

namespace IdlLinker.Link

open IdlLinker.Graph

/-- The visited declarations by kind, each kind in the order of the visits. -/
structure Numbering where
  scope : Scope
  structs : Table TypeKey Graph.Struct
  unions : Table TypeKey Graph.Union
  enums : Table TypeKey Graph.Enum
  interfaces : Table TypeKey Graph.Interface
  constants : Table ValueKey Graph.Constant
  members : Table ValueKey Graph.Enumerator
  /-- The enum members that are not nested anywhere. -/
  stray : List ValueKey

namespace Numbering

/-- The entries of a table that a function selects. -/
def select {α β : Type} (f : α → Option β) (t : Table TypeKey α) : Table TypeKey β :=
  ⟨t.entries.filterMap fun e ↦ (f e.2).map (e.1, ·)⟩

/-- Sorts the visits of a walk by kind. -/
def ofVisits (s : Scope) (v : Visits) : Numbering where
  scope := s
  structs := select (fun | .struct d => some d | _ => none) v.types
  unions := select (fun | .union d => some d | _ => none) v.types
  enums := select (fun | .enum d => some d | _ => none) v.types
  interfaces := select (fun | .interface d => some d | _ => none) v.types
  constants := v.constants
  members := v.members
  stray := v.stray

variable (n : Numbering)

/-! ## Numbers -/

def structId (key : TypeKey) : StructId := ⟨n.structs.index key⟩

def unionId (key : TypeKey) : UnionId := ⟨n.unions.index key⟩

def enumId (key : TypeKey) : EnumId := ⟨n.enums.index key⟩

def interfaceId (key : TypeKey) : InterfaceId := ⟨n.interfaces.index key⟩

def constantId (key : ValueKey) : ConstantId := ⟨n.constants.index key⟩

def memberId (key : ValueKey) : MemberId := ⟨n.members.index key⟩

def userType (key : TypeKey) : UserType :=
  if (n.structs.find? key).isSome then .struct (n.structId key)
  else if (n.unions.find? key).isSome then .union (n.unionId key)
  else if (n.enums.find? key).isSome then .enum (n.enumId key)
  else .interface (n.interfaceId key)

def valueRef (key : ValueKey) : ValueRef :=
  if (n.constants.find? key).isSome then .constant (n.constantId key)
  else .member (n.memberId key)

/-- The owner of a declaration that stands in a known file. -/
def owner (source? : Option SourceInfo) : Owner :=
  match source? with
  | none => .here
  | some info =>
    if info.fileName = n.scope.file then .here
    else .imported ⟨n.scope.module.transitiveImports.index info.fileName⟩

/-! ## Parts -/

/-- A type. A length that is not positive is no length. -/
def kind : TypeExpr → Kind
  | .primitive p => ⟨.primitive p, false⟩
  | .string nullable => ⟨.string, nullable⟩
  | .handle nullable h => ⟨.handle h, nullable⟩
  | .array nullable length element =>
    let element := kind element
    let length? := if 0 < length then some (UInt32.ofNat length.toInt.toNat) else none
    ⟨.array element.ty element.nullable length?, nullable⟩
  | .map nullable key value =>
    let key := kind key
    let value := kind value
    ⟨.map key.ty key.nullable value.ty value.nullable, nullable⟩
  | .reference r =>
    ⟨if r.isRequest then .request (n.interfaceId r.key) else .user (n.userType r.key), r.nullable⟩

def value : ValueExpr → Value
  | .literal l => .literal l
  | .builtin b => .builtin b
  | .reference r => .reference (n.valueRef r.key)

def fieldDefault : FieldDefault → Module.FieldDefault
  | .value v => .value (n.value v)
  | .keyword => .keyword

/-- The ordinal that a source gives; a negative one stands for none. -/
def ordinal? (d : Info) : Option UInt32 :=
  if 0 ≤ d.ordinal then some (UInt32.ofNat d.ordinal.toInt.toNat) else none

/-- The full name of a declaration, or its short name if it has no other. -/
def spec (d : Info) : String := d.fullName?.getD d.shortName

def containedEnums (d : Info) : List EnumId :=
  match d.contained? with
  | none => []
  | some c => c.enums.map n.enumId

def containedConstants (d : Info) : List ConstantId :=
  match d.contained? with
  | none => []
  | some c => c.constants.map n.constantId

/-! ## Declarations -/

def struct (d : Graph.Struct) : Module.Struct where
  name := d.info.shortName
  spec := spec d.info
  owner := n.owner d.info.source?
  attributes := attributesOf d.info.attributes?
  fields := d.fields.map fun f ↦
    { name := f.info.shortName
      kind := n.kind f.type
      ordinal? := ordinal? f.info
      default? := f.default?.map n.fieldDefault
      attributes := attributesOf f.info.attributes? }
  enums := n.containedEnums d.info
  constants := n.containedConstants d.info

def union (d : Graph.Union) : Module.Union where
  name := d.info.shortName
  spec := spec d.info
  owner := n.owner d.info.source?
  attributes := attributesOf d.info.attributes?
  fields := d.fields.map fun f ↦
    { name := f.info.shortName
      kind := n.kind f.type
      ordinal? := ordinal? f.info
      default? := none
      attributes := attributesOf f.info.attributes? }

def enum (d : Graph.Enum) : Module.Enum where
  name := d.info.shortName
  spec := spec d.info
  owner := n.owner d.info.source?
  attributes := attributesOf d.info.attributes?
  parent? := d.info.container?.map n.userType
  fields := d.values.map fun v ↦
    { name := v.info.shortName
      attributes := attributesOf v.info.attributes?
      number := v.number
      value? := v.initializer?.map n.value }

/-- The parameters that the fields of a struct stand for. -/
def parameters (d : Graph.Struct) : List Module.Parameter :=
  d.fields.map fun f ↦
    { name := f.info.shortName
      kind := n.kind f.type
      ordinal? := ordinal? f.info
      attributes := attributesOf f.info.attributes? }

def method (m : Graph.Method) : Module.Method where
  name := m.info.shortName
  ordinal := m.ordinal
  attributes := attributesOf m.info.attributes?
  parameters := n.parameters m.parameters
  response? := m.response?.map n.parameters

/-- An interface, which has no full name. -/
def interface (d : Graph.Interface) : Module.Interface where
  name := d.info.shortName
  spec := d.info.shortName
  owner := n.owner d.info.source?
  attributes := attributesOf d.info.attributes?
  service? := d.service?
  methods := d.methods.entries.map fun m ↦ n.method m.2
  enums := n.containedEnums d.info
  constants := n.containedConstants d.info

def constant (d : Graph.Constant) : Module.Constant where
  name := d.info.shortName
  owner := n.owner d.info.source?
  kind := n.kind d.type
  value := n.value d.value
  parent? := d.info.container?.map n.userType

/-- An enum member that is used as a value: it belongs where its enum does. -/
def member (key : ValueKey) (d : Graph.Enumerator) : Module.Member :=
  let info := ((n.enums.find? d.enum).map Graph.Enum.info).getD {}
  let owner := n.owner info.source?
  { name := d.info.shortName
    enum := n.enumId d.enum
    owner
    moduleNamespace := n.scope.module.namespaceOf owner
    parent? := if key ∈ n.stray then none else info.container?.map n.userType }

/-- All declarations, each arena in the order of the numbers. -/
def declarations : Module.Declarations where
  structs := ⟨n.structs.values.map n.struct⟩
  unions := ⟨n.unions.values.map n.union⟩
  enums := ⟨n.enums.values.map n.enum⟩
  interfaces := ⟨n.interfaces.values.map n.interface⟩
  constants := ⟨n.constants.values.map n.constant⟩
  members := ⟨n.members.entries.map fun e ↦ n.member e.1 e.2⟩

/-- The module with the given top-level declarations. -/
def module (top : TopLevel) : Module :=
  { n.scope.module with
    constants := top.constants.map n.constantId
    enums := top.enums.map n.enumId
    structs := top.structs.map n.structId
    unions := top.unions.map n.unionId
    interfaces := top.interfaces.map n.interfaceId
    declarations := n.declarations }

end Numbering

end IdlLinker.Link
