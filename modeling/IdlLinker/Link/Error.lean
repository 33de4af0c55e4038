import IdlLinker.Graph.Declaration
import IdlLinker.Module.Kind

/-!
# Link errors

A file cannot be linked when the graph is malformed where the file leads, or when a value is a
literal that no source text stands for. An error says which, and names the key or declaration at
fault; its wording is `LinkError.message`.

The cases of `LinkError` are the ways in which a declaration or an import can be out of order, one
for each check, and each case carries what the check compared. So an error can be held against the
graph without a look at the walk that came to it: that there is a defect of just this kind, at a
place that the file reaches, is a statement about `Defect`.
-/

namespace IdlLinker

/-- The two kinds of declared values. -/
inductive ValueTag where
  | enumMember
  | constant
deriving DecidableEq, Repr

/-- How an error calls a declared value. -/
def ValueTag.phrase : ValueTag → String
  | .enumMember => "an enum value"
  | .constant => "a declared constant"

namespace Graph

def TypeDecl.tag : TypeDecl → TypeTag
  | .enum _ => .enum
  | .struct _ => .struct
  | .union _ => .union
  | .interface _ => .interface

end Graph

/-- Why a file cannot be linked. -/
inductive LinkError where
  | missingFile (name : FileId)
  | missingType (key : TypeKey)
  | missingValue (key : ValueKey)
  /-- A key leads to a type of another kind than the place of its use requires. -/
  | typeMismatch (key : TypeKey) (expected actual : TypeTag)
  /-- A key leads to a value of another kind than the place of its use requires. -/
  | valueMismatch (key : ValueKey) (expected actual : ValueTag)
  /-- A declaration does not say in which file it stands. -/
  | missingSource (name : String)
  /-- A declaration stands in a file that no import leads to. -/
  | notImported (name : String) (file importer : FileId)
  /-- A value is a literal that no source text stands for. -/
  | unrepresentable (literal : Literal)
deriving DecidableEq

namespace LinkError

/-- Whether the graph is at fault, as opposed to a literal in it. -/
def isMalformedGraph : LinkError → Bool
  | .unrepresentable _ => false
  | _ => true

/-- What makes a literal unrepresentable. -/
def reason : String := "not a finite number; use the matching builtin instead"

/-- The wording of an error without its kind. -/
def detail : LinkError → String
  | .missingFile name => "file `" ++ name ++ "` is not in the graph"
  | .missingType key => "type key `" ++ key ++ "` is not in the graph"
  | .missingValue key => "value key `" ++ key ++ "` is not in the graph"
  | .typeMismatch key expected actual =>
    "type key `" ++ key ++ "` resolves to " ++ actual.name ++ ", expected " ++ expected.name
  | .valueMismatch key expected actual =>
    "value key `" ++ key ++ "` names " ++ actual.phrase ++ ", expected " ++ expected.phrase
  | .missingSource name => "`" ++ name ++ "` carries no source file information"
  | .notImported name file importer =>
    "`" ++ name ++ "` is declared in `" ++ file ++ "`, which `" ++ importer ++ "` does not import"
  | .unrepresentable literal =>
    literal.typeName ++ " literal `" ++ literal.attributeText ++ "` cannot be represented: " ++
      reason

def message (e : LinkError) : String :=
  if e.isMalformedGraph then "malformed graph: " ++ e.detail else e.detail

/-- The wordings of an error and of what caused it, the outermost first. -/
def chain (e : LinkError) : List String :=
  if e.isMalformedGraph then [e.message, e.detail] else [e.message]

end LinkError

end IdlLinker
