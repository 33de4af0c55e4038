import IdlLinker.Link.Error

/-!
# Requirements

A declaration can be linked when what it requires is there: its source file is known and imported,
its literals are representable, and every key in it leads to a declaration of the right kind, which
can be linked in turn. This module lists the requirements of a declaration, in the order in which
they are met; that order decides which declarations come first in a module, and which of several
errors is reported.

A requirement names no place to come back to: what is done with the answer is settled when the
module is assembled, after all requirements are met. That makes the list of a declaration plain
data. It can be renamed, compared and counted, and a walk is described by the lists that it puts in
front.
-/

namespace IdlLinker.Link

open IdlLinker.Graph

/-- Something that a declaration requires. -/
inductive Requirement where
  /-- The declaration of this name stands in the file itself or in an imported one. -/
  | source (name : String) (source? : Option SourceInfo)
  /-- The literal is representable. -/
  | literal (l : Literal)
  /-- The key leads to a type that can be linked, of the expected kind if there is one. -/
  | type (key : TypeKey) (expected? : Option TypeTag)
  /-- The key leads to the type in which an enum is nested. -/
  | container (enum key : TypeKey)
  /-- The key leads to a constant that can be linked. -/
  | constant (key : ValueKey)
  /-- The key leads to a constant or enum member that can be linked. -/
  | value (key : ValueKey)
deriving DecidableEq

/-- What the use of a type requires: the keys in it, from left to right. -/
def requirementsOfType : TypeExpr → List Requirement
  | .primitive _ => []
  | .string _ => []
  | .handle _ _ => []
  | .array _ _ element => requirementsOfType element
  | .map _ key value => requirementsOfType key ++ requirementsOfType value
  | .reference r => [.type r.key (if r.isRequest then some .interface else none)]

def requirementsOfValue : ValueExpr → List Requirement
  | .literal l => [.literal l]
  | .builtin _ => []
  | .reference r => [.value r.key]

def requirementsOfDefault : Option FieldDefault → List Requirement
  | some (.value v) => requirementsOfValue v
  | _ => []

/-- The requirement that a declaration stands in a known file. -/
def requirementOfSource (d : Info) : Requirement := .source d.shortName d.source?

def requirementsOfContained (d : Info) : List Requirement :=
  match d.contained? with
  | none => []
  | some c => c.enums.map (.type · (some .enum)) ++ c.constants.map .constant

def requirementsOfParameters (parameters : Struct) : List Requirement :=
  parameters.fields.flatMap fun f ↦ requirementsOfType f.type

def requirementsOfMethod (m : Method) : List Requirement :=
  requirementsOfParameters m.parameters ++
    (match m.response? with
      | none => []
      | some response => requirementsOfParameters response)

/-- What the declaration of a type requires. Defaults come before the types of their fields, and an
enum is placed in its container before its members are looked at. -/
def requirementsOfTypeDecl (key : TypeKey) : TypeDecl → List Requirement
  | .struct d =>
    requirementOfSource d.info ::
      d.fields.flatMap (fun f ↦ requirementsOfDefault f.default? ++ requirementsOfType f.type) ++
      requirementsOfContained d.info
  | .union d => requirementOfSource d.info :: d.fields.flatMap fun f ↦ requirementsOfType f.type
  | .enum d =>
    requirementOfSource d.info ::
      d.info.container?.toList.map (.container key) ++
      d.values.flatMap fun v ↦ v.initializer?.toList.flatMap requirementsOfValue
  | .interface d =>
    requirementOfSource d.info ::
      d.methods.entries.flatMap (fun m ↦ requirementsOfMethod m.2) ++
      requirementsOfContained d.info

def requirementsOfConstant (d : Constant) : List Requirement :=
  requirementOfSource d.info :: requirementsOfType d.type ++ requirementsOfValue d.value ++
    d.info.container?.toList.map (.type · none)

/-- What the use of an enum member requires: its enum. -/
def requirementsOfEnumerator (d : Enumerator) : List Requirement := [.type d.enum (some .enum)]

/-- What a file requires: its top-level constants, interfaces, structs, unions and enums, in that
order. -/
def requirementsOfFile (file : SourceFile) : List Requirement :=
  match file.declared? with
  | none => []
  | some d =>
    d.constants.map .constant ++ d.interfaces.map (.type · (some .interface)) ++
      d.structs.map (.type · (some .struct)) ++ d.unions.map (.type · (some .union)) ++
      d.enums.map (.type · (some .enum))

end IdlLinker.Link
