import IdlLinker.Graph.Shapes
import IdlLinker.Proofs.Json.Fits

/-!
# The format of graphs is sound

Every shape of the format of graphs is sound (`Shape.Sound`): what reading a value and writing it
rely on holds of each record and each choice by itself. Soundness depends on the nesting that is
left, because an empty list or an empty record has to fit where it stands for what was left out. The
bounds below are how deep the shapes are nested in each other, types aside, and all are far below
the limit.

`Loadable` lists the shapes that documents are loaded by.

Soundness is a conjunction over the fields and variants of a description, and most of it is closed
by computation: that names differ, that a projection inverts its constructor, that a default fits.
What cannot be computed is the recursion of types, which is an induction on how deep they are
unrolled.
-/

namespace IdlLinker

open Json IntegerRange

variable {depth : Nat}

/-! ## Values without parts -/

theorem Literal.sound (depth : Nat) : Literal.shape.Sound depth := by
  refine ⟨by decide, ?_⟩
  simp only [Variants.Sound, Variants.Gives, Shape.Sound, lawful_int8, lawful_int16, lawful_int32,
    lawful_int64, lawful_uint8, lawful_uint16, lawful_uint32, lawful_uint64]
  and_intros <;> grind

theorem Builtin.sound (depth : Nat) : Builtin.shape.Sound depth := by
  refine ⟨by decide, ?_⟩
  simp [Variants.Sound, Variants.Gives]

theorem Primitive.sound (depth : Nat) : Primitive.shape.Sound depth := by
  refine ⟨by decide, ?_⟩
  simp [Variants.Sound, Variants.Gives]

theorem Handle.sound (depth : Nat) : Handle.shape.Sound depth := by
  refine ⟨by decide, ?_⟩
  simp [Variants.Sound, Variants.Gives]

namespace Graph

/-! ## What declarations have in common -/

theorem Attribute.sound (depth : Nat) : Attribute.shape.Sound depth := by
  refine ⟨fun _ ↦ rfl, fun _ ↦ rfl, by decide, ?_⟩
  simp [Fields.Sound, Shape.Sound, Literal.sound]

theorem SourceInfo.sound (depth : Nat) : SourceInfo.shape.Sound depth := by
  refine ⟨fun _ ↦ rfl, fun _ ↦ rfl, by decide, ?_⟩
  simp [Fields.Sound, Shape.Sound, Shape.Fits, lawful_uint32]

/-- Fields are sound when those after a list are, and what is listed. -/
theorem sound_listed {α β ρ σ : Type} {name : String} {shape : Shape β} {get : α → List β}
    {rest : Fields α ρ σ} (room : 1 < depth) (sound : shape.Sound (depth - 1))
    (others : rest.Sound depth) :
    (Fields.defaulted name (.list shape) [] get rest).Sound depth :=
  Fields.sound_defaulted.mpr ⟨sound, Shape.fits_nil.mpr room, others⟩

theorem Contained.sound (room : 2 < depth) : Contained.shape.Sound depth :=
  ⟨fun _ ↦ rfl, fun _ ↦ rfl, by decide,
    sound_listed (by omega) trivial (sound_listed (by omega) trivial trivial)⟩

theorem Info.sound (room : 3 < depth) : Info.shape.Sound depth := by
  refine ⟨fun _ ↦ rfl, fun _ ↦ rfl, by decide, ?_⟩
  have contained := Contained.sound (show 2 < depth - 1 by omega)
  have firm : SourceInfo.shape.Firm ∧ Contained.shape.Firm := ⟨trivial, trivial⟩
  simp [Fields.Sound, Shape.Sound, Shape.Fits, lawful_int32, Attribute.sound, SourceInfo.sound,
    contained, firm]

theorem Info.fits_default (room : 1 < depth) : Info.shape.Fits depth {} := by
  refine ⟨room, ?_⟩
  simp [Fields.Fits, Fields.parts, Shape.Fits]

theorem sound_declared {α ρ σ : Type} {name : String} {get : α → Info} {rest : Fields α ρ σ}
    (room : 3 < depth) (sound : rest.Sound depth) :
    (Fields.defaulted name Info.shape {} get rest).Sound depth :=
  Fields.sound_defaulted.mpr ⟨Info.sound room, Info.fits_default (by omega), sound⟩

/-! ## Types and values -/

theorem TypeReference.sound (depth : Nat) : TypeReference.shape.Sound depth := by
  refine ⟨fun _ ↦ rfl, fun _ ↦ rfl, by decide, ?_⟩
  simp [Fields.Sound, Shape.Sound, Shape.Fits]

theorem stringShape_sound (depth : Nat) : stringShape.Sound depth := by
  refine ⟨fun _ ↦ rfl, fun _ ↦ rfl, by decide, ?_⟩
  simp [Fields.Sound, Shape.Sound, Shape.Fits]

theorem handleShape_sound (depth : Nat) : handleShape.Sound depth := by
  refine ⟨fun _ ↦ rfl, fun _ ↦ rfl, by decide, ?_⟩
  have default : Handle.shape.Fits (depth - 1) .generic := Or.inl rfl
  simp [Fields.Sound, Shape.Sound, Shape.Fits, Handle.sound, default]

theorem arrayShape_sound {element : Shape TypeExpr} (sound : element.Sound (depth - 1)) :
    (arrayShape element).Sound depth := by
  refine ⟨fun _ ↦ rfl, fun _ ↦ rfl, by simp [Fields.names], ?_⟩
  simp [Fields.Sound, Shape.Sound, Shape.Fits, lawful_int32, sound]

theorem mapShape_sound {part : Shape TypeExpr} (sound : part.Sound (depth - 1)) :
    (mapShape part).Sound depth := by
  refine ⟨fun _ ↦ rfl, fun _ ↦ rfl, by simp [Fields.names], ?_⟩
  simp [Fields.Sound, Shape.Sound, Shape.Fits, sound]

theorem TypeExpr.sound_shapeTo (levels depth : Nat) : (TypeExpr.shapeTo levels).Sound depth := by
  induction levels generalizing depth with
  | zero => trivial
  | succ levels ih =>
    refine ⟨by simp [Variants.tags], ?_⟩
    simp only [Variants.Sound, Variants.Gives, Primitive.sound, stringShape_sound,
      handleShape_sound, arrayShape_sound (ih _), mapShape_sound (ih _), TypeReference.sound]
    and_intros <;> grind

theorem TypeExpr.sound (depth : Nat) : TypeExpr.shape.Sound depth :=
  TypeExpr.sound_shapeTo typeDepth depth

theorem ValueReference.sound (depth : Nat) : ValueReference.shape.Sound depth := by
  refine ⟨fun _ ↦ rfl, fun _ ↦ rfl, by decide, ?_⟩
  simp [Fields.Sound, Shape.Sound, Shape.Fits]

theorem ValueExpr.sound (depth : Nat) : ValueExpr.shape.Sound depth := by
  refine ⟨by decide, ?_⟩
  simp only [Variants.Sound, Variants.Gives, Literal.sound, Builtin.sound, ValueReference.sound]
  and_intros <;> grind

/-! ## Declarations of types -/

theorem FieldDefault.sound (depth : Nat) : FieldDefault.shape.Sound depth := by
  refine ⟨by decide, ?_⟩
  simp only [Variants.Sound, Variants.Gives, ValueExpr.sound]
  and_intros <;> grind

theorem StructField.sound (room : 4 < depth) : StructField.shape.Sound depth := by
  refine ⟨fun _ ↦ rfl, fun _ ↦ rfl, by decide, sound_declared (by omega) ?_⟩
  have firm : FieldDefault.shape.Firm := trivial
  simp [Fields.Sound, Shape.Sound, Shape.Fits, TypeExpr.sound, FieldDefault.sound, firm]

theorem Struct.sound (room : 6 < depth) : Struct.shape.Sound depth :=
  ⟨fun _ ↦ rfl, fun _ ↦ rfl, by decide, sound_declared (by omega)
    (sound_listed (by omega) (StructField.sound (by omega)) trivial)⟩

theorem Struct.fits_default (room : 2 < depth) : Struct.shape.Fits depth {} := by
  refine ⟨by omega, Info.fits_default (by omega), ?_⟩
  exact ⟨Shape.fits_nil.mpr (by omega), trivial⟩

theorem UnionField.sound (room : 4 < depth) : UnionField.shape.Sound depth := by
  refine ⟨fun _ ↦ rfl, fun _ ↦ rfl, by decide, sound_declared (by omega) ?_⟩
  simp [Fields.Sound, TypeExpr.sound]

theorem Union.sound (room : 6 < depth) : Union.shape.Sound depth :=
  ⟨fun _ ↦ rfl, fun _ ↦ rfl, by decide, sound_declared (by omega)
    (sound_listed (by omega) (UnionField.sound (by omega)) trivial)⟩

theorem Enumerator.sound (room : 4 < depth) : Enumerator.shape.Sound depth := by
  refine ⟨fun _ ↦ rfl, fun _ ↦ rfl, by decide, sound_declared (by omega) ?_⟩
  have firm : ValueExpr.shape.Firm := trivial
  simp [Fields.Sound, Shape.Sound, Shape.Fits, lawful_int32, ValueExpr.sound, firm]

theorem Enum.sound (room : 6 < depth) : Enum.shape.Sound depth :=
  ⟨fun _ ↦ rfl, fun _ ↦ rfl, by decide, sound_declared (by omega)
    (sound_listed (by omega) (Enumerator.sound (by omega)) trivial)⟩

theorem Method.sound (room : 7 < depth) : Method.shape.Sound depth := by
  refine ⟨fun _ ↦ rfl, fun _ ↦ rfl, by decide, sound_declared (by omega) ?_⟩
  have struct := Struct.sound (show 6 < depth - 1 by omega)
  have parameters := Struct.fits_default (show 2 < depth - 1 by omega)
  have firm : Struct.shape.Firm := trivial
  simp [Fields.Sound, Shape.Sound, Shape.Fits, lawful_uint32, struct, parameters, firm]

theorem Interface.sound (room : 9 < depth) : Interface.shape.Sound depth := by
  refine ⟨fun _ ↦ rfl, fun _ ↦ rfl, by decide, sound_declared (by omega) ?_⟩
  have method := Method.sound (show 7 < depth - 1 - 1 by omega)
  have table : 1 < depth - 1 := by omega
  simp [Fields.Sound, Shape.Sound, Shape.Fits, Numbered.empty, method, table]

theorem TypeDecl.sound (room : 10 < depth) : TypeDecl.shape.Sound depth := by
  refine ⟨by decide, ?_⟩
  have enum := Enum.sound (show 6 < depth - 1 by omega)
  have struct := Struct.sound (show 6 < depth - 1 by omega)
  have union := Union.sound (show 6 < depth - 1 by omega)
  have interface := Interface.sound (show 9 < depth - 1 by omega)
  simp only [Variants.Sound, Variants.Gives, enum, struct, union, interface]
  and_intros <;> grind

/-! ## Declarations of values -/

theorem Constant.sound (room : 4 < depth) : Constant.shape.Sound depth := by
  refine ⟨fun _ ↦ rfl, fun _ ↦ rfl, by decide, sound_declared (by omega) ?_⟩
  simp [Fields.Sound, TypeExpr.sound, ValueExpr.sound]

theorem ValueDecl.sound (room : 5 < depth) : ValueDecl.shape.Sound depth := by
  refine ⟨by decide, ?_⟩
  have enumerator := Enumerator.sound (show 4 < depth - 1 by omega)
  have constant := Constant.sound (show 4 < depth - 1 by omega)
  simp only [Variants.Sound, Variants.Gives, enumerator, constant]
  and_intros <;> grind

/-! ## Files and graphs -/

theorem TopLevel.sound (room : 2 < depth) : TopLevel.shape.Sound depth := by
  refine ⟨fun _ ↦ rfl, fun _ ↦ rfl, by decide, ?_⟩
  have list : 1 < depth - 1 := by omega
  exact sound_listed list trivial <| sound_listed list trivial <| sound_listed list trivial <|
    sound_listed list trivial <| sound_listed list trivial trivial

theorem SourceFile.sound (room : 3 < depth) : SourceFile.shape.Sound depth := by
  refine ⟨fun _ ↦ rfl, fun _ ↦ rfl, by decide, ?_⟩
  have declared := TopLevel.sound (show 2 < depth - 1 by omega)
  have firm : TopLevel.shape.Firm := trivial
  simp [Fields.Sound, Shape.Sound, Shape.Fits, Attribute.sound, declared, firm]

theorem sound (room : 12 < depth) : Graph.shape.Sound depth := by
  refine ⟨fun _ ↦ rfl, fun _ ↦ rfl, by decide, ?_⟩
  have file := SourceFile.sound (show 3 < depth - 1 - 1 by omega)
  have type := TypeDecl.sound (show 10 < depth - 1 - 1 by omega)
  have value := ValueDecl.sound (show 5 < depth - 1 - 1 by omega)
  have table : 1 < depth - 1 := by omega
  simp [Fields.Sound, Shape.Sound, Shape.Fits, Table.empty, Table.keys, file, type, value, table]

end Graph

/-! ## What is loaded -/

/-- The shapes that documents are loaded by. -/
inductive Loadable : {α : Type} → Shape α → Prop where
  | graph : Loadable Graph.shape
  | sourceFile : Loadable Graph.SourceFile.shape
  | info : Loadable Graph.Info.shape
  | typeExpr : Loadable Graph.TypeExpr.shape
  | valueExpr : Loadable Graph.ValueExpr.shape
  | literal : Loadable Literal.shape
  | structField : Loadable Graph.StructField.shape
  | typeDecl : Loadable Graph.TypeDecl.shape
  | valueDecl : Loadable Graph.ValueDecl.shape

/-- What documents are loaded by is sound within the limit of nesting. -/
theorem Loadable.sound {α : Type} {shape : Shape α} (h : Loadable shape) :
    shape.Sound nestingLimit := by
  cases h with
  | graph => exact Graph.sound (by decide)
  | sourceFile => exact Graph.SourceFile.sound (by decide)
  | info => exact Graph.Info.sound (by decide)
  | typeExpr => exact Graph.TypeExpr.sound nestingLimit
  | valueExpr => exact Graph.ValueExpr.sound nestingLimit
  | literal => exact Literal.sound nestingLimit
  | structField => exact Graph.StructField.sound (by decide)
  | typeDecl => exact Graph.TypeDecl.sound (by decide)
  | valueDecl => exact Graph.ValueDecl.sound (by decide)

end IdlLinker
