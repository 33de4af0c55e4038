import IdlLinker.Table
import IdlLinker.Literal
import IdlLinker.Numbered

/-!
# Parse graphs

A front end reads source files and emits what it saw as one flat graph: the files, and two tables
with the declared types and the declared values. Declarations refer to each other only by *key*: a
type key leads into the table of types, a value key into the table of values. Nothing here is
resolved, and nothing is known to be consistent.

What may be left out of a document is kept as it is: a length that is not positive, an ordinal of
`-1`, a missing short name. What these stand for is decided where a module is assembled. Only the
methods of an interface are in an order that the document does not have, since they come under
numbers.

A declaration names its container, and the container lists what is nested in it; an enum holds its
members, and each of them names its enum and has an entry of its own among the values. A graph may
say one of these things and not the other, and it can be linked nevertheless.
-/

namespace IdlLinker

namespace Graph

/-- An attribute of a file or declaration. -/
structure Attribute where
  key : String
  value : Literal
deriving DecidableEq

/-- Where in which file a declaration stands. -/
structure SourceInfo where
  fileName : FileId
  line : UInt32 := 0
  column : UInt32 := 0
deriving DecidableEq, Repr

/-- The declarations nested in a struct or interface. -/
structure Contained where
  enums : List TypeKey := []
  constants : List ValueKey := []
deriving DecidableEq, Repr

/-- What every declaration has: its names, its place, and the declarations around and in it. An
ordinal of `-1` was not written in the source. -/
structure Info where
  shortName? : Option String := none
  fullName? : Option String := none
  ordinal : Int32 := -1
  order : Int32 := -1
  attributes? : Option (List Attribute) := none
  source? : Option SourceInfo := none
  /-- The struct or interface that the declaration is nested in. -/
  container? : Option TypeKey := none
  contained? : Option Contained := none
deriving DecidableEq

/-- The short name, which is empty when there is none. -/
def Info.shortName (d : Info) : String := d.shortName?.getD ""

/-- The use of a declared type. -/
structure TypeReference where
  nullable : Bool := false
  /-- Whether a request for the interface is meant, not the interface. -/
  isRequest : Bool := false
  identifier? : Option String := none
  key : TypeKey
deriving DecidableEq, Repr

/-- A type as the source wrote it. A length that is not positive leaves an array open. -/
inductive TypeExpr where
  | primitive (p : Primitive)
  | string (nullable : Bool)
  | handle (nullable : Bool) (kind : Handle)
  | array (nullable : Bool) (length : Int32) (element : TypeExpr)
  | map (nullable : Bool) (key value : TypeExpr)
  | reference (r : TypeReference)
deriving DecidableEq

/-- The use of a declared value. -/
structure ValueReference where
  identifier? : Option String := none
  key : ValueKey
deriving DecidableEq, Repr

/-- A value as the source wrote it. -/
inductive ValueExpr where
  | literal (l : Literal)
  | builtin (b : Builtin)
  | reference (r : ValueReference)
deriving DecidableEq

/-- What a struct field holds when nothing is given for it. -/
inductive FieldDefault where
  | value (v : ValueExpr)
  /-- The default of the field's type. -/
  | keyword
deriving DecidableEq

/-- A member of a struct, or a parameter of a method. -/
structure StructField where
  info : Info := {}
  type : TypeExpr
  default? : Option FieldDefault := none
deriving DecidableEq

structure Struct where
  info : Info := {}
  fields : List StructField := []
deriving DecidableEq

structure UnionField where
  info : Info := {}
  type : TypeExpr
deriving DecidableEq

structure Union where
  info : Info := {}
  fields : List UnionField := []
deriving DecidableEq

structure Enumerator where
  info : Info := {}
  /-- The enum that the member belongs to. -/
  enum : TypeKey
  initializer? : Option ValueExpr := none
  number : Int32 := 0
deriving DecidableEq

structure Enum where
  info : Info := {}
  values : List Enumerator := []
deriving DecidableEq

/-- A method of an interface. Its parameters travel as the fields of a struct; without a response
it is not answered at all. -/
structure Method where
  info : Info := {}
  parameters : Struct := {}
  response? : Option Struct := none
  ordinal : UInt32 := 0
deriving DecidableEq

structure Interface where
  info : Info := {}
  service? : Option String := none
  methods : Numbered Method := .empty
deriving DecidableEq

/-- A declared type. -/
inductive TypeDecl where
  | enum (d : Enum)
  | struct (d : Struct)
  | union (d : Union)
  | interface (d : Interface)
deriving DecidableEq

/-- What the declaration of a type has in common with every other. -/
def TypeDecl.info : TypeDecl → Info
  | .enum d => d.info
  | .struct d => d.info
  | .union d => d.info
  | .interface d => d.info

structure Constant where
  info : Info := {}
  type : TypeExpr
  value : ValueExpr
deriving DecidableEq

/-- A declared value. -/
inductive ValueDecl where
  | enumerator (d : Enumerator)
  | constant (d : Constant)
deriving DecidableEq

/-- The declarations at the top level of a file, by key. -/
structure TopLevel where
  constants : List ValueKey := []
  enums : List TypeKey := []
  structs : List TypeKey := []
  unions : List TypeKey := []
  interfaces : List TypeKey := []
deriving DecidableEq, Repr

structure SourceFile where
  fileName : String
  /-- The name given by the user, empty for a file that was only imported. -/
  specifiedName : String := ""
  moduleNamespace : String := ""
  attributes? : Option (List Attribute) := none
  imports? : Option (List FileId) := none
  declared? : Option TopLevel := none
deriving DecidableEq

/-- The names of the files that a file imports, in source order. -/
def SourceFile.imports (file : SourceFile) : List FileId := file.imports?.getD []

end Graph

/-- Files, declared types and declared values, each under its key. -/
structure Graph where
  files : Table FileId Graph.SourceFile := .empty
  types : Table TypeKey Graph.TypeDecl := .empty
  values : Table ValueKey Graph.ValueDecl := .empty

end IdlLinker
