import IdlLinker.Json.Value
import IdlLinker.Module.Basic

/-!
# Modules as documents

The JSON form of a module, which generators read. Alternatives carry a tag beside what they hold,
positions are plain numbers, and what is absent is `null`.

A document is a value of `Json` and not a text, so that what it says does not depend on how it is
printed; `Json.compact` and `Json.pretty` print it. The documents are written out type by type, and
no `Shape` describes them: a shape is a format that can be read as well, and modules are written for
others. Attributes and import tables become objects whose members are in the order of the entries.
-/

namespace IdlLinker

open Json

/-- The document of something that may be absent. -/
def Json.ofOption {α : Type} (f : α → Json) : Option α → Json
  | none => .null
  | some a => f a

def Json.ofNat (n : Nat) : Json := .int n

/-- An object whose first member says which alternative it is. -/
def Json.tagged (name : String) (members : List (String × Json)) : Json :=
  .object (("kind", .text name) :: members)

namespace Literal

/-- The scalar alone. -/
def document : Literal → Json
  | .bool b => .bool b
  | .int8 n => .int n.toInt
  | .int16 n => .int n.toInt
  | .int32 n => .int n.toInt
  | .int64 n => .int n.toInt
  | .uint8 n => .ofNat n.toNat
  | .uint16 n => .ofNat n.toNat
  | .uint32 n => .ofNat n.toNat
  | .uint64 n => .ofNat n.toNat
  | .float x => .float32 x
  | .double x => .float64 x
  | .string s => .text s

/-- The scalar and the name of its type. -/
def toJson (l : Literal) : Json := .object [("type", .text l.typeName), ("value", l.document)]

end Literal

def Builtin.name : Builtin → String
  | .doubleInfinity => "double_infinity"
  | .doubleNegativeInfinity => "double_negative_infinity"
  | .doubleNan => "double_nan"
  | .floatInfinity => "float_infinity"
  | .floatNegativeInfinity => "float_negative_infinity"
  | .floatNan => "float_nan"

def Primitive.name : Primitive → String
  | .bool => "bool"
  | .int8 => "int8"
  | .int16 => "int16"
  | .int32 => "int32"
  | .int64 => "int64"
  | .uint8 => "uint8"
  | .uint16 => "uint16"
  | .uint32 => "uint32"
  | .uint64 => "uint64"
  | .float => "float"
  | .double => "double"

def Handle.name : Handle → String
  | .generic => "generic"
  | .messagePipe => "message_pipe"
  | .dataConsumer => "data_consumer"
  | .dataProducer => "data_producer"
  | .sharedBuffer => "shared_buffer"

def Id.toJson {space : Space} (id : Id space) : Json := .ofNat id.index

def Id.listToJson {space : Space} (ids : List (Id space)) : Json := .list (ids.map Id.toJson)

def UserType.toJson (u : UserType) : Json := .tagged u.tag.name [("id", .ofNat u.index)]

/-- A type without its nullability. -/
def Ty.toJson : Ty → Json
  | .primitive p => .tagged "primitive" [("primitive", .text p.name)]
  | .string => .tagged "string" []
  | .handle h => .tagged "handle" [("handle", .text h.name)]
  | .array element nullable length? =>
    .tagged "array"
      [("element", .object [("ty", element.toJson), ("nullable", .bool nullable)]),
        ("length", .ofOption (fun n : UInt32 ↦ .ofNat n.toNat) length?)]
  | .map key keyNullable value valueNullable =>
    .tagged "map"
      [("key", .object [("ty", key.toJson), ("nullable", .bool keyNullable)]),
        ("value", .object [("ty", value.toJson), ("nullable", .bool valueNullable)])]
  | .user u => u.toJson
  | .request id => .tagged "interface_request" [("id", id.toJson)]

def Kind.toJson (k : Kind) : Json := .object [("ty", k.ty.toJson), ("nullable", .bool k.nullable)]

def ValueRef.toJson : ValueRef → Json
  | .constant id => .tagged "constant" [("id", id.toJson)]
  | .member id => .tagged "enum_member" [("id", id.toJson)]

def Value.toJson : Value → Json
  | .literal l => .tagged "literal" [("literal", l.toJson)]
  | .builtin b => .tagged "builtin" [("builtin", .text b.name)]
  | .reference target => .tagged "reference" [("target", target.toJson)]

def Attributes.toJson (as : Attributes) : Json :=
  .object (as.entries.map fun e ↦ (e.1, .text e.2))

def Owner.toJson : Owner → Json
  | .here => .tagged "local" []
  | .imported id => .tagged "imported" [("import", .ofNat id.index)]

namespace Module

/-- An ordinal that the source may have left out. -/
def ordinalToJson (ordinal? : Option UInt32) : Json :=
  .ofOption (fun n : UInt32 ↦ .ofNat n.toNat) ordinal?

def FieldDefault.toJson : FieldDefault → Json
  | .value v => .tagged "value" [("value", v.toJson)]
  | .keyword => .tagged "keyword" []

def Field.toJson (f : Field) : Json :=
  .object
    [("name", .text f.name), ("kind", f.kind.toJson), ("ordinal", ordinalToJson f.ordinal?),
      ("default", .ofOption FieldDefault.toJson f.default?),
      ("attributes", Attributes.toJson f.attributes)]

def Struct.toJson (s : Struct) : Json :=
  .object
    [("name", .text s.name), ("spec", .text s.spec), ("owner", s.owner.toJson),
      ("attributes", Attributes.toJson s.attributes), ("fields", .list (s.fields.map Field.toJson)),
      ("enums", Id.listToJson s.enums), ("constants", Id.listToJson s.constants)]

def Union.toJson (u : Union) : Json :=
  .object
    [("name", .text u.name), ("spec", .text u.spec), ("owner", u.owner.toJson),
      ("attributes", Attributes.toJson u.attributes),
      ("fields", .list (u.fields.map Field.toJson))]

def Enumerator.toJson (e : Enumerator) : Json :=
  .object
    [("name", .text e.name), ("attributes", Attributes.toJson e.attributes),
      ("numeric_value", .int e.number.toInt), ("value", .ofOption Value.toJson e.value?)]

def Enum.toJson (e : Enum) : Json :=
  .object
    [("name", .text e.name), ("spec", .text e.spec), ("owner", e.owner.toJson),
      ("attributes", Attributes.toJson e.attributes),
      ("parent", .ofOption UserType.toJson e.parent?),
      ("fields", .list (e.fields.map Enumerator.toJson))]

def Parameter.toJson (p : Parameter) : Json :=
  .object
    [("name", .text p.name), ("kind", p.kind.toJson), ("ordinal", ordinalToJson p.ordinal?),
      ("attributes", Attributes.toJson p.attributes)]

def Parameter.listToJson (ps : List Parameter) : Json := .list (ps.map Parameter.toJson)

def Method.toJson (m : Method) : Json :=
  .object
    [("name", .text m.name), ("ordinal", .ofNat m.ordinal.toNat),
      ("attributes", Attributes.toJson m.attributes),
      ("parameters", Parameter.listToJson m.parameters),
      ("response_parameters", .ofOption Parameter.listToJson m.response?)]

def Interface.toJson (i : Interface) : Json :=
  .object
    [("name", .text i.name), ("spec", .text i.spec), ("owner", i.owner.toJson),
      ("attributes", Attributes.toJson i.attributes),
      ("service_name", .ofOption .text i.service?),
      ("methods", .list (i.methods.map Method.toJson)), ("enums", Id.listToJson i.enums),
      ("constants", Id.listToJson i.constants)]

def Constant.toJson (c : Constant) : Json :=
  .object
    [("name", .text c.name), ("owner", c.owner.toJson), ("kind", c.kind.toJson),
      ("value", c.value.toJson), ("parent", .ofOption UserType.toJson c.parent?)]

def Member.toJson (m : Member) : Json :=
  .object
    [("name", .text m.name), ("enum", m.enum.toJson), ("owner", m.owner.toJson),
      ("namespace", .text m.moduleNamespace), ("parent", .ofOption UserType.toJson m.parent?)]

def Declarations.toJson (d : Declarations) : Json :=
  .object
    [("structs", .list (d.structs.items.map Struct.toJson)),
      ("unions", .list (d.unions.items.map Union.toJson)),
      ("enums", .list (d.enums.items.map Enum.toJson)),
      ("interfaces", .list (d.interfaces.items.map Interface.toJson)),
      ("constants", .list (d.constants.items.map Constant.toJson)),
      ("enum_values", .list (d.members.items.map Member.toJson))]

mutual

/-- A module. -/
def toJson : Module → Json
  | ⟨name, specifiedName, path, moduleNamespace, attributes, imports, ⟨entries⟩, constants, enums,
      structs, unions, interfaces, declarations⟩ =>
    .object
      [("name", .text name), ("specified_name", .text specifiedName), ("path", .text path),
        ("namespace", .text moduleNamespace), ("attributes", Attributes.toJson attributes),
        ("imports", .list (imports.map fun i ↦ .ofNat i.index)),
        ("transitive_imports", .object (importsToJson entries)),
        ("constants", Id.listToJson constants), ("enums", Id.listToJson enums),
        ("structs", Id.listToJson structs), ("unions", Id.listToJson unions),
        ("interfaces", Id.listToJson interfaces), ("declarations", declarations.toJson)]

/-- The imports of a module, each under the name of its file. -/
def importsToJson : List (FileId × Import Module) → List (String × Json)
  | [] => []
  | (file, ⟨moduleName, moduleNamespace, module⟩) :: rest =>
    (file,
      .object
        [("module_name", .text moduleName), ("namespace", .text moduleNamespace),
          ("module", module.toJson)]) :: importsToJson rest

end

end Module

/-- Modules under the names of their files. -/
def Module.tableToJson (t : Table FileId Module) : Json :=
  .object (t.entries.map fun e ↦ (e.1, e.2.toJson))

end IdlLinker
