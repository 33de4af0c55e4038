import IdlLinker.Literal
import IdlLinker.Module.Arena

/-!
# Types and values of a module

Types and values as generators see them: every key is gone, and declarations are named by their
position in one of the arenas of the module.

An `Id` carries its arena as a parameter, so the position of a struct cannot be looked up among the
enums. Nothing keeps a position from being too great for its arena, though; that it is not is a
theorem about modules that were linked.

Whether something may be null belongs to a use and not to what is used. So a `Kind` is a type with a
mark beside it, and two uses of one declaration point at equal declarations even if their marks
differ.
-/

namespace IdlLinker

/-- The arenas of a module. -/
inductive Space where
  | structs
  | unions
  | enums
  | interfaces
  | constants
  | members
deriving DecidableEq, Repr

/-- A position in one of the arenas. -/
structure Id (space : Space) where
  index : Nat
deriving DecidableEq, Repr

abbrev StructId := Id .structs
abbrev UnionId := Id .unions
abbrev EnumId := Id .enums
abbrev InterfaceId := Id .interfaces
abbrev ConstantId := Id .constants
/-- An enum member that is used as a value. -/
abbrev MemberId := Id .members

/-- The written form of a position in diagnostics. -/
def Id.text {space : Space} (id : Id space) : String := "#" ++ toString id.index

/-- The four kinds of declared types. -/
inductive TypeTag where
  | struct
  | union
  | enum
  | interface
deriving DecidableEq, Repr

def TypeTag.name : TypeTag → String
  | .struct => "struct"
  | .union => "union"
  | .enum => "enum"
  | .interface => "interface"

/-- A declared type. Equal ones are the same declaration. -/
inductive UserType where
  | struct (id : StructId)
  | union (id : UnionId)
  | enum (id : EnumId)
  | interface (id : InterfaceId)
deriving DecidableEq, Repr

namespace UserType

def tag : UserType → TypeTag
  | .struct _ => .struct
  | .union _ => .union
  | .enum _ => .enum
  | .interface _ => .interface

/-- The position of a declared type in the arena of its kind. -/
def index : UserType → Nat
  | .struct id => id.index
  | .union id => id.index
  | .enum id => id.index
  | .interface id => id.index

end UserType

/-- A type without regard to whether it may be null. The parts of an array or map have a nullability
of their own, which stands beside them. -/
inductive Ty where
  | primitive (p : Primitive)
  | string
  | handle (h : Handle)
  /-- An array, open when it has no length. -/
  | array (element : Ty) (elementNullable : Bool) (length? : Option UInt32)
  | map (key : Ty) (keyNullable : Bool) (value : Ty) (valueNullable : Bool)
  | user (u : UserType)
  /-- A request for an interface. -/
  | request (id : InterfaceId)
deriving DecidableEq, Repr

/-- A type as it is used in one place. The declaration behind it is the same for all uses, whether
they may be null or not. -/
structure Kind where
  ty : Ty
  nullable : Bool := false
deriving DecidableEq, Repr

namespace Kind

/-- The same type with another nullability. -/
def withNullable (k : Kind) (nullable : Bool) : Kind := { k with nullable }

/-- The declared type that a use points at, if any. -/
def userType? (k : Kind) : Option UserType :=
  match k.ty with
  | .user u => some u
  | .request id => some (.interface id)
  | _ => none

end Kind

inductive ValueRef where
  | constant (id : ConstantId)
  | member (id : MemberId)
deriving DecidableEq, Repr

inductive Value where
  | literal (l : Literal)
  | builtin (b : Builtin)
  | reference (target : ValueRef)
deriving DecidableEq

end IdlLinker
