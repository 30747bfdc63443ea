import TypeNotation.Proofs.TypeExpr.Merged

set_option autoImplicit false

/-! # The normal form of a type expression

A variant that a bare variant before it covers adds nothing to a union. The normal form leaves such
variants out of every union, at every depth, and changes nothing else. It is reached in one step. -/

namespace TypeNotation

/-! ## Leaving out covered variants everywhere -/

mutual

/-- The variant with its shape in normal form. -/
def Variant.norm : Variant → Variant
  | .mk name none => .mk name none
  | .mk name (some shape) => .mk name (some shape.norm)

/-- The shape with every union inside it in normal form. -/
def Shape.norm : Shape → Shape
  | .array of => .array (TypeExpr.uncovered (normVariants of))
  | .tuple of => .tuple (normSlots of)
  | .fields of subset => .fields (normFields of) subset

/-- The field with its union in normal form. -/
def Field.norm : Field → Field
  | .mk key of => .mk key (TypeExpr.uncovered (normVariants of))

/-- The variants of a union, each in its normal form. -/
def normVariants : List Variant → List Variant
  | [] => []
  | v :: rest => v.norm :: normVariants rest

/-- The slots of a tuple, each in its normal form. -/
def normSlots : List (List Variant) → List (List Variant)
  | [] => []
  | of :: rest => TypeExpr.uncovered (normVariants of) :: normSlots rest

/-- The fields of a record, each in its normal form. -/
def normFields : List Field → List Field
  | [] => []
  | f :: rest => f.norm :: normFields rest

end

/-- The type expression without the variants that are covered in their union. -/
def TypeExpr.norm (of : TypeExpr) : TypeExpr :=
  uncovered (normVariants of)

theorem normVariants_eq_map (of : List Variant) : normVariants of = of.map Variant.norm := by
  induction of with
  | nil => rfl
  | cons v rest ih => rw [normVariants, ih, List.map_cons]

theorem normSlots_eq_map (of : List (List Variant)) : normSlots of = of.map TypeExpr.norm := by
  induction of with
  | nil => rfl
  | cons v rest ih => rw [normSlots, ih, List.map_cons, TypeExpr.norm]

theorem normFields_eq_map (of : List Field) : normFields of = of.map Field.norm := by
  induction of with
  | nil => rfl
  | cons f rest ih => rw [normFields, ih, List.map_cons]

@[simp]
theorem Field.key_norm (f : Field) : f.norm.key = f.key := by
  cases f with
  | mk key of => rfl

@[simp]
theorem Variant.name_norm (v : Variant) : v.norm.name = v.name := by
  match v with
  | .mk name none => rfl
  | .mk name (some shape) => rfl

@[simp]
theorem Variant.isBare_norm (v : Variant) : v.norm.isBare = v.isBare := by
  match v with
  | .mk name none => rfl
  | .mk name (some shape) => rfl

@[simp]
theorem Variant.covers_norm (b v : Variant) : b.norm.covers v.norm = b.covers v := by
  simp [Variant.covers]

/-- It does not matter whether covered variants are left out before or after their parts. -/
theorem TypeExpr.uncovered_map_norm (of : TypeExpr) :
    uncovered (of.map Variant.norm) = (uncovered of).map Variant.norm := by
  induction of using List.reverseRecOn with
  | nil => rfl
  | append_singleton rest v ih =>
    rw [List.map_append, List.map_singleton, uncovered_append_singleton, ih,
      uncovered_append_singleton, List.map_append]
    have hany : (rest.map Variant.norm).any (·.covers v.norm) = rest.any (·.covers v) := by
      simp [List.any_map, Function.comp_def]
    rw [hany]
    split <;> rfl

/-! ## One step is enough -/

/-- A union is in normal form once its variants are and the covered ones are left out. -/
theorem TypeExpr.norm_uncovered {of : TypeExpr} (h : normVariants of = of) :
    uncovered (normVariants (uncovered of)) = uncovered of := by
  rw [normVariants_eq_map] at h ⊢
  rw [← uncovered_map_norm, h, uncovered_uncovered]

mutual

theorem Variant.norm_norm (v : Variant) : v.norm.norm = v.norm := by
  match v with
  | .mk name none => rfl
  | .mk name (some shape) => rw [Variant.norm, Variant.norm, shape.norm_norm]

theorem Shape.norm_norm (s : Shape) : s.norm.norm = s.norm := by
  cases s with
  | array of =>
    rw [Shape.norm, Shape.norm, TypeExpr.norm_uncovered (normVariants_normVariants of)]
  | tuple of => rw [Shape.norm, Shape.norm, normSlots_normSlots of]
  | fields of subset => rw [Shape.norm, Shape.norm, normFields_normFields of]

theorem Field.norm_norm (f : Field) : f.norm.norm = f.norm := by
  cases f with
  | mk key of =>
    rw [Field.norm, Field.norm, TypeExpr.norm_uncovered (normVariants_normVariants of)]

theorem normVariants_normVariants (of : List Variant) :
    normVariants (normVariants of) = normVariants of := by
  cases of with
  | nil => rfl
  | cons v rest => rw [normVariants, normVariants, v.norm_norm, normVariants_normVariants rest]

theorem normSlots_normSlots (of : List (List Variant)) :
    normSlots (normSlots of) = normSlots of := by
  cases of with
  | nil => rfl
  | cons of rest =>
    rw [normSlots, normSlots, TypeExpr.norm_uncovered (normVariants_normVariants of),
      normSlots_normSlots rest]

theorem normFields_normFields (of : List Field) : normFields (normFields of) = normFields of := by
  cases of with
  | nil => rfl
  | cons f rest => rw [normFields, normFields, f.norm_norm, normFields_normFields rest]

end

theorem TypeExpr.norm_norm (of : TypeExpr) : norm (norm of) = norm of :=
  norm_uncovered (normVariants_normVariants of)

end TypeNotation
