import TypeNotation.Proofs.TypeExpr.Normal

set_option autoImplicit false

/-! # Type expressions without covered variants

`Irredundant` looks at the unions of a type expression as they are and computes no normal form: at
no depth does a variant stand behind a bare one of its name. These are exactly the type expressions
that are their own normal form. -/

namespace TypeNotation

/-- No variant of a union is covered by one before it. -/
def TypeExpr.NoneCovered (of : TypeExpr) : Prop :=
  of.Pairwise fun b v => b.covers v = false

mutual

/-- In no union inside the variant is a variant covered by one before it. -/
def Variant.Irredundant : Variant → Prop
  | .mk _ none => True
  | .mk _ (some shape) => shape.Irredundant

/-- In no union inside the shape is a variant covered by one before it. -/
def Shape.Irredundant : Shape → Prop
  | .array of => TypeExpr.NoneCovered of ∧ IrredundantVariants of
  | .tuple of => IrredundantSlots of
  | .fields of _ => IrredundantFields of

/-- Neither in the union of the field nor inside it is a variant covered by one before it. -/
def Field.Irredundant : Field → Prop
  | .mk _ of => TypeExpr.NoneCovered of ∧ IrredundantVariants of

/-- Each of the variants is `Irredundant`. They may cover one another. -/
def IrredundantVariants : List Variant → Prop
  | [] => True
  | v :: rest => v.Irredundant ∧ IrredundantVariants rest

/-- Neither in the union of a slot nor inside it is a variant covered by one before it. -/
def IrredundantSlots : List (List Variant) → Prop
  | [] => True
  | of :: rest => (TypeExpr.NoneCovered of ∧ IrredundantVariants of) ∧ IrredundantSlots rest

/-- Each of the fields is `Irredundant`. -/
def IrredundantFields : List Field → Prop
  | [] => True
  | f :: rest => f.Irredundant ∧ IrredundantFields rest

end

/-- In no union of a type expression is a variant covered by one before it. -/
def TypeExpr.Irredundant (of : TypeExpr) : Prop :=
  NoneCovered of ∧ IrredundantVariants of

/-! ## One union -/

theorem TypeExpr.uncovered_sublist (of : TypeExpr) : (uncovered of).Sublist of := by
  induction of using List.reverseRecOn with
  | nil => exact List.Sublist.refl _
  | append_singleton rest v ih =>
    rw [uncovered_append_singleton]
    split
    · exact ih.append (List.nil_sublist [v])
    · exact ih.append (List.Sublist.refl [v])

theorem TypeExpr.uncovered_eq_self_iff {of : TypeExpr} : uncovered of = of ↔ NoneCovered of := by
  induction of using List.reverseRecOn with
  | nil => simp [NoneCovered]
  | append_singleton rest v ih =>
    have hpairwise : NoneCovered (rest ++ [v]) ↔
        NoneCovered rest ∧ rest.any (·.covers v) = false := by
      simp [NoneCovered, List.pairwise_append]
    rw [hpairwise, uncovered_append_singleton]
    by_cases hany : rest.any (·.covers v) = true
    · -- `v` is left out, so there are fewer variants than before
      rw [if_pos hany, List.append_nil]
      constructor
      · intro h
        have hlength := (uncovered_sublist rest).length_le
        rw [h, List.length_append, List.length_singleton] at hlength
        omega
      · rintro ⟨-, hnone⟩
        rw [hnone] at hany
        cases hany
    · rw [if_neg hany, List.append_left_inj, ih]
      simp [hany]

/-- Neither step of taking a normal form undoes the other. -/
theorem TypeExpr.uncovered_normVariants_eq_self_iff {of : TypeExpr} :
    uncovered (normVariants of) = of ↔ NoneCovered of ∧ normVariants of = of := by
  constructor
  · intro h
    have hlength : (uncovered (normVariants of)).length = (normVariants of).length := by
      rw [h, normVariants_eq_map, List.length_map]
    have huncovered := (uncovered_sublist (normVariants of)).eq_of_length hlength
    have hnorm : normVariants of = of := huncovered.symm.trans h
    rw [hnorm] at huncovered
    exact ⟨uncovered_eq_self_iff.1 huncovered, hnorm⟩
  · rintro ⟨hnone, hnorm⟩
    rw [hnorm, uncovered_eq_self_iff]
    exact hnone

/-! ## Every union -/

mutual

theorem Variant.norm_eq_self_iff (v : Variant) : v.norm = v ↔ v.Irredundant := by
  match v with
  | .mk name none => simp [Variant.norm, Variant.Irredundant]
  | .mk name (some shape) =>
    rw [Variant.norm, Variant.Irredundant, ← shape.norm_eq_self_iff]
    simp

theorem Shape.norm_eq_self_iff (s : Shape) : s.norm = s ↔ s.Irredundant := by
  cases s with
  | array of =>
    rw [Shape.norm, Shape.Irredundant, ← normVariants_eq_self_iff of, Shape.array.injEq]
    exact TypeExpr.uncovered_normVariants_eq_self_iff
  | tuple of =>
    rw [Shape.norm, Shape.Irredundant, ← normSlots_eq_self_iff of, Shape.tuple.injEq]
  | fields of subset =>
    rw [Shape.norm, Shape.Irredundant, ← normFields_eq_self_iff of]
    simp

theorem Field.norm_eq_self_iff (f : Field) : f.norm = f ↔ f.Irredundant := by
  cases f with
  | mk key of =>
    rw [Field.norm, Field.Irredundant, ← normVariants_eq_self_iff of,
      ← TypeExpr.uncovered_normVariants_eq_self_iff]
    simp

theorem normVariants_eq_self_iff (of : List Variant) :
    normVariants of = of ↔ IrredundantVariants of := by
  cases of with
  | nil => simp [normVariants, IrredundantVariants]
  | cons v rest =>
    rw [normVariants, IrredundantVariants, List.cons.injEq, v.norm_eq_self_iff,
      normVariants_eq_self_iff rest]

theorem normSlots_eq_self_iff (of : List (List Variant)) :
    normSlots of = of ↔ IrredundantSlots of := by
  cases of with
  | nil => simp [normSlots, IrredundantSlots]
  | cons of rest =>
    rw [normSlots, IrredundantSlots, List.cons.injEq,
      TypeExpr.uncovered_normVariants_eq_self_iff, normVariants_eq_self_iff of,
      normSlots_eq_self_iff rest]

theorem normFields_eq_self_iff (fs : List Field) : normFields fs = fs ↔ IrredundantFields fs := by
  cases fs with
  | nil => simp [normFields, IrredundantFields]
  | cons f rest =>
    rw [normFields, IrredundantFields, List.cons.injEq, f.norm_eq_self_iff,
      normFields_eq_self_iff rest]

end

theorem TypeExpr.norm_eq_self_iff {of : TypeExpr} : norm of = of ↔ Irredundant of := by
  rw [norm, Irredundant, ← normVariants_eq_self_iff]
  exact uncovered_normVariants_eq_self_iff

end TypeNotation
