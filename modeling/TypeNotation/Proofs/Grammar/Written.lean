import TypeNotation.Grammar.Tree
import TypeNotation.Proofs.TypeExpr.Normal

set_option autoImplicit false

/-! # What a tree says, word for word

`written` is the type expression of a tree with every variant that is written: `Maybe` stands for
its two variants and a record has each key once, but no variant is left out. The value of a tree is
the normal form of what is written (`ExprTree.value_eq`). -/

namespace TypeNotation

mutual

/-- The variants of a union that are written, with `maybeVariants` first. -/
def ExprTree.written : ExprTree → TypeExpr
  | .mk _ maybe of => maybeVariants maybe ++ of.written

/-- The variants in the order in which they are written. -/
def VariantsTree.written : VariantsTree → List Variant
  | .last v => [v.written]
  | .more v rest => v.written :: rest.written

/-- The variant that is written, with what is written in its shape. -/
def VariantTree.written : VariantTree → Variant
  | .bare name => .named name.text
  | .shaped name shape => .mk (some name.text) (some shape.written)
  | .anonymous shape => .anonymous shape.written

/-- The shape that is written. `Field.merged` gives each key its first place and its last type. -/
def ShapeTree.written : ShapeTree → Shape
  | .array of => .array of.written
  | .tuple of => .tuple of.written
  | .fields of => .fields (Field.merged of.written) of.subset

/-- What is written in each of the slots. -/
def SlotsTree.written : SlotsTree → List TypeExpr
  | .last of _ => [of.written]
  | .more of _ rest => of.written :: rest.written

/-- The fields in the order in which they are written, with repeated keys. -/
def FieldsTree.written : FieldsTree → List Field
  | .last key of _ => [.mk key of.written]
  | .ellipsis => []
  | .more key of _ rest => .mk key of.written :: rest.written

end

theorem map_norm_maybeVariants (maybe : Bool) :
    (maybeVariants maybe).map Variant.norm = maybeVariants maybe := by
  cases maybe <;> rfl

mutual

theorem ExprTree.value_eq (tree : ExprTree) : tree.value = TypeExpr.norm tree.written := by
  cases tree with
  | mk label maybe of =>
    rw [ExprTree.value, ExprTree.written, TypeExpr.dropCovered_eq_uncovered, TypeExpr.norm,
      normVariants_eq_map, List.map_append, map_norm_maybeVariants, of.values_eq]

theorem VariantsTree.values_eq (vs : VariantsTree) : vs.values = vs.written.map Variant.norm := by
  cases vs with
  | last v => rw [VariantsTree.values, VariantsTree.written, v.value_eq, List.map_singleton]
  | more v rest =>
    rw [VariantsTree.values, VariantsTree.written, v.value_eq, rest.values_eq, List.map_cons]

theorem VariantTree.value_eq (v : VariantTree) : v.value = v.written.norm := by
  cases v with
  | bare name => rfl
  | shaped name s => rw [VariantTree.value, VariantTree.written, s.value_eq, Variant.norm]
  | anonymous s =>
    rw [VariantTree.value, VariantTree.written, s.value_eq, Variant.anonymous, Variant.anonymous,
      Variant.norm]

theorem ShapeTree.value_eq (s : ShapeTree) : s.value = s.written.norm := by
  cases s with
  | array of => rw [ShapeTree.value, ShapeTree.written, of.value_eq, Shape.norm, TypeExpr.norm]
  | tuple of =>
    rw [ShapeTree.value, ShapeTree.written, of.values_eq, Shape.norm, normSlots_eq_map]
  | fields of =>
    rw [ShapeTree.value, ShapeTree.written, of.values_eq, Shape.norm, normFields_eq_map,
      Field.gather_map Field.key_norm, Field.gather_eq_merged]

theorem SlotsTree.values_eq (slots : SlotsTree) :
    slots.values = slots.written.map TypeExpr.norm := by
  cases slots with
  | last of comma => rw [SlotsTree.values, SlotsTree.written, of.value_eq, List.map_singleton]
  | more of comma rest =>
    rw [SlotsTree.values, SlotsTree.written, of.value_eq, rest.values_eq, List.map_cons]

theorem FieldsTree.values_eq (fields : FieldsTree) :
    fields.values = fields.written.map Field.norm := by
  cases fields with
  | last key of comma =>
    rw [FieldsTree.values, FieldsTree.written, of.value_eq, List.map_singleton, Field.norm,
      TypeExpr.norm]
  | ellipsis => rfl
  | more key of comma rest =>
    rw [FieldsTree.values, FieldsTree.written, of.value_eq, rest.values_eq, List.map_cons,
      Field.norm, TypeExpr.norm]

end

end TypeNotation
