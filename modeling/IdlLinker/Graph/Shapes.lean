import IdlLinker.Graph.Declaration
import IdlLinker.Json.Shape

/-!
# The format of graphs

The shape of every part of a graph as a front end emits it. What a record leaves out has the value
that it would have by default, so that a front end need only emit what it has to say.

There is one shape for each type of a parse graph, built from those of its parts. Types are nested
in types, so their shape is unrolled as deep as a document can be nested; deeper types have no
documents. A choice lists its variants with a constructor and a projection each, which are inverse
to each other as far as a variant goes. That the descriptions are in order in this sense is checked
once for all of them (`Shape.Sound`), and what is proved of reading and writing then holds of every
part of the format.
-/

namespace IdlLinker

open Json

namespace Literal

/-- A literal is tagged with its type. -/
def shape : Shape Literal :=
  .choice <|
    .payload "bool_value" .boolean .bool (fun | .bool b => some b | _ => none) <|
    .payload "double_value" .float64 .double (fun | .double x => some x | _ => none) <|
    .payload "float_value" .float32 .float (fun | .float x => some x | _ => none) <|
    .payload "int8_value" (.integer .int8) .int8 (fun | .int8 n => some n | _ => none) <|
    .payload "int16_value" (.integer .int16) .int16 (fun | .int16 n => some n | _ => none) <|
    .payload "int32_value" (.integer .int32) .int32 (fun | .int32 n => some n | _ => none) <|
    .payload "int64_value" (.integer .int64) .int64 (fun | .int64 n => some n | _ => none) <|
    .payload "string_value" .text .string (fun | .string s => some s | _ => none) <|
    .payload "uint8_value" (.integer .uint8) .uint8 (fun | .uint8 n => some n | _ => none) <|
    .payload "uint16_value" (.integer .uint16) .uint16 (fun | .uint16 n => some n | _ => none) <|
    .payload "uint32_value" (.integer .uint32) .uint32 (fun | .uint32 n => some n | _ => none) <|
    .payload "uint64_value" (.integer .uint64) .uint64 (fun | .uint64 n => some n | _ => none)
    .done

end Literal

namespace Builtin

/-- A built-in constant is a bare tag. -/
def shape : Shape Builtin :=
  .choice <|
    .bare "DOUBLE_INFINITY" .doubleInfinity (· = .doubleInfinity) <|
    .bare "DOUBLE_NEGATIVE_INFINITY" .doubleNegativeInfinity (· = .doubleNegativeInfinity) <|
    .bare "DOUBLE_NAN" .doubleNan (· = .doubleNan) <|
    .bare "FLOAT_INFINITY" .floatInfinity (· = .floatInfinity) <|
    .bare "FLOAT_NEGATIVE_INFINITY" .floatNegativeInfinity (· = .floatNegativeInfinity) <|
    .bare "FLOAT_NAN" .floatNan (· = .floatNan)
    .done

end Builtin

namespace Primitive

/-- A type without parts is a bare tag. -/
def shape : Shape Primitive :=
  .choice <|
    .bare "BOOL" .bool (· = .bool) <|
    .bare "INT8" .int8 (· = .int8) <|
    .bare "INT16" .int16 (· = .int16) <|
    .bare "INT32" .int32 (· = .int32) <|
    .bare "INT64" .int64 (· = .int64) <|
    .bare "UINT8" .uint8 (· = .uint8) <|
    .bare "UINT16" .uint16 (· = .uint16) <|
    .bare "UINT32" .uint32 (· = .uint32) <|
    .bare "UINT64" .uint64 (· = .uint64) <|
    .bare "FLOAT" .float (· = .float) <|
    .bare "DOUBLE" .double (· = .double)
    .done

end Primitive

namespace Handle

/-- The kind of a handle is a bare tag. -/
def shape : Shape Handle :=
  .choice <|
    .bare "UNSPECIFIED" .generic (· = .generic) <|
    .bare "MESSAGE_PIPE" .messagePipe (· = .messagePipe) <|
    .bare "DATA_PIPE_CONSUMER" .dataConsumer (· = .dataConsumer) <|
    .bare "DATA_PIPE_PRODUCER" .dataProducer (· = .dataProducer) <|
    .bare "SHARED_BUFFER" .sharedBuffer (· = .sharedBuffer)
    .done

end Handle

namespace Graph

/-! ## What declarations have in common -/

def Attribute.shape : Shape Attribute :=
  .record "Attribute"
    (.required "key" .text Attribute.key <|
      .required "value" Literal.shape Attribute.value .done)
    fun (key, value, ()) ↦ ⟨key, value⟩

def SourceInfo.shape : Shape SourceInfo :=
  .record "SourceFileInfo"
    (.required "file_name" .text SourceInfo.fileName <|
      .defaulted "line_number" (.integer .uint32) 0 SourceInfo.line <|
      .defaulted "column_number" (.integer .uint32) 0 SourceInfo.column .done)
    fun (fileName, line, column, ()) ↦ ⟨fileName, line, column⟩

def Contained.shape : Shape Contained :=
  .record "ContainedDeclarations"
    (.defaulted "enums" (.list .text) [] Contained.enums <|
      .defaulted "constants" (.list .text) [] Contained.constants .done)
    fun (enums, constants, ()) ↦ ⟨enums, constants⟩

def Info.shape : Shape Info :=
  .record "DeclarationData"
    (.defaulted "short_name" (.optional .text) none Info.shortName? <|
      .defaulted "full_identifier" (.optional .text) none Info.fullName? <|
      .defaulted "declared_ordinal" (.integer .int32) (-1) Info.ordinal <|
      .defaulted "declaration_order" (.integer .int32) (-1) Info.order <|
      .defaulted "attributes" (.optional (.list Attribute.shape)) none Info.attributes? <|
      .defaulted "source_file_info" (.optional SourceInfo.shape) none Info.source? <|
      .defaulted "container_type_key" (.optional .text) none Info.container? <|
      .defaulted "contained_declarations" (.optional Contained.shape) none Info.contained? .done)
    fun (shortName, fullName, ordinal, order, attributes, source, container, contained, ()) ↦
      ⟨shortName, fullName, ordinal, order, attributes, source, container, contained⟩

/-! ## Types and values -/

def TypeReference.shape : Shape TypeReference :=
  .record "TypeReference"
    (.defaulted "nullable" .boolean false TypeReference.nullable <|
      .defaulted "is_interface_request" .boolean false TypeReference.isRequest <|
      .defaulted "identifier" (.optional .text) none TypeReference.identifier? <|
      .required "type_key" .text TypeReference.key .done)
    fun (nullable, isRequest, identifier, key, ()) ↦ ⟨nullable, isRequest, identifier, key⟩

def stringShape : Shape Bool :=
  .record "StringType" (.defaulted "nullable" .boolean false id .done) fun (nullable, ()) ↦ nullable

def handleShape : Shape (Bool × Handle) :=
  .record "HandleType"
    (.defaulted "nullable" .boolean false Prod.fst <|
      .defaulted "kind" Handle.shape .generic Prod.snd .done)
    fun (nullable, kind, ()) ↦ (nullable, kind)

/-- An array type over the given shape of element types. -/
def arrayShape (element : Shape TypeExpr) : Shape (Bool × Int32 × TypeExpr) :=
  .record "ArrayType"
    (.defaulted "nullable" .boolean false (fun a ↦ a.1) <|
      .defaulted "fixed_length" (.integer .int32) (-1) (fun a ↦ a.2.1) <|
      .required "element_type" element (fun a ↦ a.2.2) .done)
    fun (nullable, length, element, ()) ↦ (nullable, length, element)

/-- A map type over the given shape of key and value types. -/
def mapShape (part : Shape TypeExpr) : Shape (Bool × TypeExpr × TypeExpr) :=
  .record "MapType"
    (.defaulted "nullable" .boolean false (fun m ↦ m.1) <|
      .required "key_type" part (fun m ↦ m.2.1) <|
      .required "value_type" part (fun m ↦ m.2.2) .done)
    fun (nullable, key, value, ()) ↦ (nullable, key, value)

/-- Types whose parts are nested less deep than the given depth. -/
def TypeExpr.shapeTo : Nat → Shape TypeExpr
  | 0 => .tooDeep
  | depth + 1 =>
    .choice <|
      .payload "simple_type" Primitive.shape .primitive
        (fun | .primitive p => some p | _ => none) <|
      .payload "string_type" stringShape .string (fun | .string n => some n | _ => none) <|
      .payload "handle_type" handleShape (fun h ↦ .handle h.1 h.2)
        (fun | .handle n k => some (n, k) | _ => none) <|
      .payload "array_type" (arrayShape (shapeTo depth)) (fun a ↦ .array a.1 a.2.1 a.2.2)
        (fun | .array n l e => some (n, l, e) | _ => none) <|
      .payload "map_type" (mapShape (shapeTo depth)) (fun m ↦ .map m.1 m.2.1 m.2.2)
        (fun | .map n k v => some (n, k, v) | _ => none) <|
      .payload "type_reference" TypeReference.shape .reference
        (fun | .reference r => some r | _ => none)
      .done

/-- The unrolling of types. Each level opens two objects, so this is deeper than any document can
be nested. -/
def typeDepth : Nat := 128

def TypeExpr.shape : Shape TypeExpr := shapeTo typeDepth

def ValueReference.shape : Shape ValueReference :=
  .record "UserValueReference"
    (.defaulted "identifier" (.optional .text) none ValueReference.identifier? <|
      .required "value_key" .text ValueReference.key .done)
    fun (identifier, key, ()) ↦ ⟨identifier, key⟩

def ValueExpr.shape : Shape ValueExpr :=
  .choice <|
    .payload "literal_value" Literal.shape .literal (fun | .literal l => some l | _ => none) <|
    .payload "builtin_value" Builtin.shape .builtin (fun | .builtin b => some b | _ => none) <|
    .payload "user_value_reference" ValueReference.shape .reference
      (fun | .reference r => some r | _ => none)
    .done

/-! ## Declarations of types -/

def FieldDefault.shape : Shape FieldDefault :=
  .choice <|
    .payload "value" ValueExpr.shape .value (fun | .value v => some v | _ => none) <|
    .bare "default_keyword" .keyword (· = .keyword)
    .done

def StructField.shape : Shape StructField :=
  .record "StructField"
    (.defaulted "decl_data" Info.shape {} StructField.info <|
      .required "type" TypeExpr.shape StructField.type <|
      .defaulted "default_value" (.optional FieldDefault.shape) none StructField.default? .done)
    fun (info, type, default, ()) ↦ ⟨info, type, default⟩

def Struct.shape : Shape Struct :=
  .record "StructType"
    (.defaulted "decl_data" Info.shape {} Struct.info <|
      .defaulted "fields" (.list StructField.shape) [] Struct.fields .done)
    fun (info, fields, ()) ↦ ⟨info, fields⟩

def UnionField.shape : Shape UnionField :=
  .record "UnionField"
    (.defaulted "decl_data" Info.shape {} UnionField.info <|
      .required "type" TypeExpr.shape UnionField.type .done)
    fun (info, type, ()) ↦ ⟨info, type⟩

def Union.shape : Shape Union :=
  .record "UnionType"
    (.defaulted "decl_data" Info.shape {} Union.info <|
      .defaulted "fields" (.list UnionField.shape) [] Union.fields .done)
    fun (info, fields, ()) ↦ ⟨info, fields⟩

def Enumerator.shape : Shape Enumerator :=
  .record "EnumValue"
    (.defaulted "decl_data" Info.shape {} Enumerator.info <|
      .required "enum_type_key" .text Enumerator.enum <|
      .defaulted "initializer_value" (.optional ValueExpr.shape) none Enumerator.initializer? <|
      .defaulted "int_value" (.integer .int32) 0 Enumerator.number .done)
    fun (info, enum, initializer, number, ()) ↦ ⟨info, enum, initializer, number⟩

def Enum.shape : Shape Enum :=
  .record "EnumType"
    (.defaulted "decl_data" Info.shape {} Enum.info <|
      .defaulted "values" (.list Enumerator.shape) [] Enum.values .done)
    fun (info, values, ()) ↦ ⟨info, values⟩

def Method.shape : Shape Method :=
  .record "Method"
    (.defaulted "decl_data" Info.shape {} Method.info <|
      .defaulted "parameters" Struct.shape {} Method.parameters <|
      .defaulted "response_params" (.optional Struct.shape) none Method.response? <|
      .defaulted "ordinal" (.integer .uint32) 0 Method.ordinal .done)
    fun (info, parameters, response, ordinal, ()) ↦ ⟨info, parameters, response, ordinal⟩

def Interface.shape : Shape Interface :=
  .record "InterfaceType"
    (.defaulted "decl_data" Info.shape {} Interface.info <|
      .defaulted "service_name" (.optional .text) none Interface.service? <|
      .defaulted "methods" (.numbered Method.shape) .empty Interface.methods .done)
    fun (info, service, methods, ()) ↦ ⟨info, service, methods⟩

def TypeDecl.shape : Shape TypeDecl :=
  .choice <|
    .payload "enum_type" Enum.shape .enum (fun | .enum d => some d | _ => none) <|
    .payload "struct_type" Struct.shape .struct (fun | .struct d => some d | _ => none) <|
    .payload "union_type" Union.shape .union (fun | .union d => some d | _ => none) <|
    .payload "interface_type" Interface.shape .interface
      (fun | .interface d => some d | _ => none)
    .done

/-! ## Declarations of values -/

def Constant.shape : Shape Constant :=
  .record "DeclaredConstant"
    (.defaulted "decl_data" Info.shape {} Constant.info <|
      .required "type" TypeExpr.shape Constant.type <|
      .required "value" ValueExpr.shape Constant.value .done)
    fun (info, type, value, ()) ↦ ⟨info, type, value⟩

def ValueDecl.shape : Shape ValueDecl :=
  .choice <|
    .payload "enum_value" Enumerator.shape .enumerator
      (fun | .enumerator d => some d | _ => none) <|
    .payload "declared_constant" Constant.shape .constant
      (fun | .constant d => some d | _ => none)
    .done

/-! ## Files and graphs -/

def TopLevel.shape : Shape TopLevel :=
  .record "DeclaredObjects"
    (.defaulted "top_level_constants" (.list .text) [] TopLevel.constants <|
      .defaulted "top_level_enums" (.list .text) [] TopLevel.enums <|
      .defaulted "structs" (.list .text) [] TopLevel.structs <|
      .defaulted "unions" (.list .text) [] TopLevel.unions <|
      .defaulted "interfaces" (.list .text) [] TopLevel.interfaces .done)
    fun (constants, enums, structs, unions, interfaces, ()) ↦
      ⟨constants, enums, structs, unions, interfaces⟩

def SourceFile.shape : Shape SourceFile :=
  .record "SourceFile"
    (.required "file_name" .text SourceFile.fileName <|
      .defaulted "specified_file_name" .text "" SourceFile.specifiedName <|
      .defaulted "module_namespace" .text "" SourceFile.moduleNamespace <|
      .defaulted "attributes" (.optional (.list Attribute.shape)) none SourceFile.attributes? <|
      .defaulted "imports" (.optional (.list .text)) none SourceFile.imports? <|
      .defaulted "declared_objects" (.optional TopLevel.shape) none SourceFile.declared? .done)
    fun (fileName, specifiedName, moduleNamespace, attributes, imports, declared, ()) ↦
      ⟨fileName, specifiedName, moduleNamespace, attributes, imports, declared⟩

/-- A graph. -/
def shape : Shape Graph :=
  .record "FileGraph"
    (.defaulted "files" (.table SourceFile.shape) .empty Graph.files <|
      .defaulted "resolved_types" (.table TypeDecl.shape) .empty Graph.types <|
      .defaulted "resolved_values" (.table ValueDecl.shape) .empty Graph.values .done)
    fun (files, types, values, ()) ↦ ⟨files, types, values⟩

end Graph

end IdlLinker
