import IdlLinker.Module.Basic

/-!
# Agreement of modules

Two modules agree when they hold the same values. Two things are left out of account: the order of
attributes and of import tables, and the words of floating point literals, which are compared as
numbers.

Equality would be too fine to compare a module with one that was read from elsewhere: attributes and
imports are tables, whose order says nothing, and a zero may come with either sign. Everything else
is compared as it is, positions included, so modules that agree number their declarations in the
same way. Agreement is computed, one function for each part, and the parts that have neither
attributes nor literals in them are compared by `==`.
-/

namespace IdlLinker

/-- Whether two lists agree item by item. -/
def List.agreesBy {α : Type} (agrees : α → α → Bool) : List α → List α → Bool
  | [], [] => true
  | a :: as, b :: bs => agrees a b && List.agreesBy agrees as bs
  | _, _ => false

/-- Whether two things that may be absent agree. -/
def Option.agreesBy {α : Type} (agrees : α → α → Bool) : Option α → Option α → Bool
  | none, none => true
  | some a, some b => agrees a b
  | _, _ => false

/-- Whether two tables hold agreeing values under the same keys, in whatever order. -/
def Table.agreesBy {κ α : Type} [DecidableEq κ] (agrees : α → α → Bool) (s t : Table κ α) : Bool :=
  s.size == t.size &&
    s.entries.all fun e ↦ Option.agreesBy agrees (some e.2) (t.find? e.1)

def Value.agrees : Value → Value → Bool
  | .literal l, .literal m => l.agrees m
  | v, w => v == w

def Attributes.agrees (s t : Attributes) : Bool := Table.agreesBy (· == ·) s t

namespace Module

def FieldDefault.agrees : FieldDefault → FieldDefault → Bool
  | .value v, .value w => v.agrees w
  | d, e => d == e

def Field.agrees (f g : Field) : Bool :=
  f.name == g.name && f.kind == g.kind && f.ordinal? == g.ordinal? &&
    Option.agreesBy FieldDefault.agrees f.default? g.default? &&
    Attributes.agrees f.attributes g.attributes

def Struct.agrees (s t : Struct) : Bool :=
  s.name == t.name && s.spec == t.spec && s.owner == t.owner &&
    Attributes.agrees s.attributes t.attributes &&
    List.agreesBy Field.agrees s.fields t.fields && s.enums == t.enums &&
    s.constants == t.constants

def Union.agrees (s t : Union) : Bool :=
  s.name == t.name && s.spec == t.spec && s.owner == t.owner &&
    Attributes.agrees s.attributes t.attributes && List.agreesBy Field.agrees s.fields t.fields

def Enumerator.agrees (s t : Enumerator) : Bool :=
  s.name == t.name && Attributes.agrees s.attributes t.attributes && s.number == t.number &&
    Option.agreesBy Value.agrees s.value? t.value?

def Enum.agrees (s t : Enum) : Bool :=
  s.name == t.name && s.spec == t.spec && s.owner == t.owner &&
    Attributes.agrees s.attributes t.attributes && s.parent? == t.parent? &&
    List.agreesBy Enumerator.agrees s.fields t.fields

def Parameter.agrees (s t : Parameter) : Bool :=
  s.name == t.name && s.kind == t.kind && s.ordinal? == t.ordinal? &&
    Attributes.agrees s.attributes t.attributes

def Method.agrees (s t : Method) : Bool :=
  s.name == t.name && s.ordinal == t.ordinal && Attributes.agrees s.attributes t.attributes &&
    List.agreesBy Parameter.agrees s.parameters t.parameters &&
    Option.agreesBy (List.agreesBy Parameter.agrees) s.response? t.response?

def Interface.agrees (s t : Interface) : Bool :=
  s.name == t.name && s.spec == t.spec && s.owner == t.owner &&
    Attributes.agrees s.attributes t.attributes && s.service? == t.service? &&
    List.agreesBy Method.agrees s.methods t.methods && s.enums == t.enums &&
    s.constants == t.constants

def Constant.agrees (s t : Constant) : Bool :=
  s.name == t.name && s.owner == t.owner && s.kind == t.kind && s.value.agrees t.value &&
    s.parent? == t.parent?

def Member.agrees (s t : Member) : Bool :=
  s.name == t.name && s.enum == t.enum && s.owner == t.owner &&
    s.moduleNamespace == t.moduleNamespace && s.parent? == t.parent?

def Declarations.agrees (s t : Declarations) : Bool :=
  List.agreesBy Struct.agrees s.structs.items t.structs.items &&
    List.agreesBy Union.agrees s.unions.items t.unions.items &&
    List.agreesBy Enum.agrees s.enums.items t.enums.items &&
    List.agreesBy Interface.agrees s.interfaces.items t.interfaces.items &&
    List.agreesBy Constant.agrees s.constants.items t.constants.items &&
    List.agreesBy Member.agrees s.members.items t.members.items

mutual

def agrees : Module → Module → Bool
  | ⟨name, specifiedName, path, moduleNamespace, attributes, imports, ⟨entries⟩, constants, enums,
      structs, unions, interfaces, declarations⟩, n =>
    name == n.name && specifiedName == n.specifiedName && path == n.path &&
      moduleNamespace == n.moduleNamespace && Attributes.agrees attributes n.attributes &&
      imports == n.imports &&
      (entries.length == n.transitiveImports.size && importsAgree entries n.transitiveImports) &&
      constants == n.constants && enums == n.enums && structs == n.structs &&
      unions == n.unions && interfaces == n.interfaces && declarations.agrees n.declarations

/-- Whether each of the given imports has one in a table that agrees with it. -/
def importsAgree : List (FileId × Import Module) → Table FileId (Import Module) → Bool
  | [], _ => true
  | (file, ⟨moduleName, moduleNamespace, module⟩) :: rest, t =>
    (match t.find? file with
      | none => false
      | some i =>
        moduleName == i.moduleName && moduleNamespace == i.moduleNamespace &&
          module.agrees i.module) && importsAgree rest t

end

end Module

end IdlLinker
