import IdlLinker.Table
import IdlLinker.Module.Kind

/-!
# Modules

A `Module` is one file as generators see it: the declarations that the file can reach, in arenas,
and for each file that it imports, directly or not, a description of that file.

Declarations may refer to each other around cycles, so a module is not a tree: what refers to a
declaration holds its position, and lists of declarations are lists of positions. Import tables do
make a tree, since a description is itself a module, with its imports and declarations left out.

A declaration of another file is held like one of the file itself, and only its `Owner` tells them
apart. So generators look up both in the same way, whichever file they are from.
-/

namespace IdlLinker

/-- Attributes as text. -/
abbrev Attributes := Table String String

/-- A position among the imports of a module. -/
structure ImportId where
  index : Nat
deriving DecidableEq, Repr

/-- Where a declaration lives: in the file of the module, or in one of its imports. -/
inductive Owner where
  | here
  | imported (id : ImportId)
deriving DecidableEq, Repr

namespace Owner

def isLocal (o : Owner) : Bool := o = .here

/-- The import in which a declaration lives, if it lives in one. -/
def import? : Owner → Option ImportId
  | .here => none
  | .imported id => some id

end Owner

namespace Module

/-- What the field of a struct holds when nothing is given for it. -/
inductive FieldDefault where
  | value (v : Value)
  /-- The default of the field's type. -/
  | keyword
deriving DecidableEq

structure Field where
  name : String
  kind : Kind
  /-- The ordinal that the source gives, if it gives one. -/
  ordinal? : Option UInt32
  default? : Option FieldDefault
  attributes : Attributes

structure Struct where
  name : String
  /-- The full name. -/
  spec : String
  owner : Owner
  attributes : Attributes
  fields : List Field
  enums : List EnumId
  constants : List ConstantId

structure Union where
  name : String
  spec : String
  owner : Owner
  attributes : Attributes
  fields : List Field

structure Enumerator where
  name : String
  attributes : Attributes
  number : Int32
  /-- The number as the source wrote it. -/
  value? : Option Value

structure Enum where
  name : String
  spec : String
  owner : Owner
  attributes : Attributes
  /-- The declaration that the enum is nested in. -/
  parent? : Option UserType
  fields : List Enumerator

structure Parameter where
  name : String
  kind : Kind
  ordinal? : Option UInt32
  attributes : Attributes

/-- A method. One without response is not answered at all. -/
structure Method where
  name : String
  ordinal : UInt32
  attributes : Attributes
  parameters : List Parameter
  response? : Option (List Parameter)

/-- Whether a method is answered. -/
def Method.hasResponse (m : Method) : Bool := m.response?.isSome

structure Interface where
  name : String
  spec : String
  owner : Owner
  attributes : Attributes
  service? : Option String
  methods : List Method
  enums : List EnumId
  constants : List ConstantId

structure Constant where
  name : String
  owner : Owner
  kind : Kind
  value : Value
  /-- The declaration that the constant is nested in. -/
  parent? : Option UserType

/-- A member of an enum that is used as a value. It belongs where its enum does. -/
structure Member where
  name : String
  enum : EnumId
  owner : Owner
  moduleNamespace : String
  parent? : Option UserType

/-- Everything that a module can reach, in its own file or in another. -/
structure Declarations where
  structs : Arena Struct := {}
  unions : Arena Union := {}
  enums : Arena Enum := {}
  interfaces : Arena Interface := {}
  constants : Arena Constant := {}
  members : Arena Member := {}

/-- An imported file. Its module says what the file is, and leaves out what it declares. -/
structure Import (μ : Type) where
  moduleName : String
  moduleNamespace : String
  module : μ

end Module

open IdlLinker.Module in
/-- A file as generators see it. -/
structure Module where
  /-- The name of the file without its directories. -/
  name : String := ""
  /-- The name under which the user gave the file. -/
  specifiedName : String := ""
  path : String := ""
  moduleNamespace : String := ""
  attributes : Attributes := .empty
  /-- The direct imports, in source order. -/
  imports : List ImportId := []
  /-- All files that imports lead to. -/
  transitiveImports : Table FileId (Import Module) := .empty
  constants : List ConstantId := []
  enums : List EnumId := []
  structs : List StructId := []
  unions : List UnionId := []
  interfaces : List InterfaceId := []
  declarations : Declarations := {}

namespace Module

/-! ## Looking things up -/

/-- The import at a position, if there is one. -/
def import? (m : Module) (id : ImportId) : Option (Import Module) :=
  (m.transitiveImports.entry? id.index).map Prod.snd

/-- The direct imports, in source order. -/
def directImports (m : Module) : List (Import Module) := m.imports.filterMap m.import?

/-- The namespace of the file that an owner names. -/
def namespaceOf (m : Module) : Owner → String
  | .here => m.moduleNamespace
  | .imported id => ((m.import? id).map Import.moduleNamespace).getD ""

def struct? (m : Module) (id : StructId) : Option Struct := m.declarations.structs.get? id.index

def union? (m : Module) (id : UnionId) : Option Union := m.declarations.unions.get? id.index

def enum? (m : Module) (id : EnumId) : Option Enum := m.declarations.enums.get? id.index

def interface? (m : Module) (id : InterfaceId) : Option Interface :=
  m.declarations.interfaces.get? id.index

def constant? (m : Module) (id : ConstantId) : Option Constant :=
  m.declarations.constants.get? id.index

def member? (m : Module) (id : MemberId) : Option Member := m.declarations.members.get? id.index

/-- The name of a declared type. -/
def userTypeName? (m : Module) : UserType → Option String
  | .struct id => (m.struct? id).map Struct.name
  | .union id => (m.union? id).map Union.name
  | .enum id => (m.enum? id).map Enum.name
  | .interface id => (m.interface? id).map Interface.name

/-- The owner of a declared type. -/
def userTypeOwner? (m : Module) : UserType → Option Owner
  | .struct id => (m.struct? id).map Struct.owner
  | .union id => (m.union? id).map Union.owner
  | .enum id => (m.enum? id).map Enum.owner
  | .interface id => (m.interface? id).map Interface.owner

/-- All declared types: structs, unions, enums, and interfaces, each in the order of the arena. -/
def userTypes (m : Module) : List UserType :=
  (List.range m.declarations.structs.size).map (fun i ↦ .struct ⟨i⟩) ++
  (List.range m.declarations.unions.size).map (fun i ↦ .union ⟨i⟩) ++
  (List.range m.declarations.enums.size).map (fun i ↦ .enum ⟨i⟩) ++
  (List.range m.declarations.interfaces.size).map (fun i ↦ .interface ⟨i⟩)

end Module

end IdlLinker
