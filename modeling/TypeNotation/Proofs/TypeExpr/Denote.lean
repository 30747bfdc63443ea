import Mathlib.Data.Set.Basic
import TypeNotation.Proofs.TypeExpr.Normal

set_option autoImplicit false

/-! # What a type expression denotes

An `Interpretation` says which values bear a name and what becomes of the sets that the parts of a
shape denote. It may do so as it likes; only unions and names before shapes are read in one way. A
bare variant denotes all values of its name and a shape behind the name can but narrow them, so a
union loses no value when the variants that a bare one covers are left out. The normal form thus
denotes what the type expression does, under every interpretation
(`Interpretation.union_norm`). -/

namespace TypeNotation

universe u

/-- The values of each name, and of each shape given what its parts denote. -/
structure Interpretation (α : Type u) where
  name : String → Set α
  array : Set α → Set α
  tuple : List (Set α) → Set α
  fields : List (String × Set α) → Bool → Set α

namespace Interpretation

variable {α : Type u} (i : Interpretation α)

mutual

/-- What is neither named nor shaped, and cannot be written, would exclude nothing. -/
def variant : Variant → Set α
  | .mk (some name) none => i.name name
  | .mk none (some s) => shape s
  | .mk (some name) (some s) => i.name name ∩ shape s
  | .mk none none => Set.univ

/-- The values of a shape, given what its parts denote. -/
def shape : Shape → Set α
  | .array of => i.array (union of)
  | .tuple of => i.tuple (slots of)
  | .fields of subset => i.fields (members of) subset

/-- The key of a field and the values of its type. -/
def field : Field → String × Set α
  | .mk key of => (key, union of)

/-- The values of at least one of the variants. -/
def union : List Variant → Set α
  | [] => ∅
  | v :: rest => variant v ∪ union rest

/-- The values of each of the slots. -/
def slots : List (List Variant) → List (Set α)
  | [] => []
  | of :: rest => union of :: slots rest

/-- The key and the values of each of the fields. -/
def members : List Field → List (String × Set α)
  | [] => []
  | f :: rest => field f :: members rest

end

/-! ## Leaving out covered variants -/

theorem union_append (of of' : TypeExpr) : i.union (of ++ of') = i.union of ∪ i.union of' := by
  induction of with
  | nil => rw [List.nil_append, union, Set.empty_union]
  | cons v rest ih => rw [List.cons_append, union, union, ih, Set.union_assoc]

theorem union_singleton (v : Variant) : i.union [v] = i.variant v := by
  rw [union, union, Set.union_empty]

theorem variant_subset_union {v : Variant} {of : TypeExpr} (hv : v ∈ of) :
    i.variant v ⊆ i.union of := by
  obtain ⟨before, after, rfl⟩ := List.append_of_mem hv
  rw [union_append, union]
  exact Set.subset_union_of_subset_right Set.subset_union_left _

/-- A bare variant admits whatever a variant of its name does. -/
theorem variant_subset_of_covers {b v : Variant} (h : b.covers v = true) :
    i.variant v ⊆ i.variant b := by
  obtain ⟨hbare, hname⟩ := Variant.covers_iff.1 h
  match b, v with
  | .mk (some name) none, .mk _ none =>
    cases hname
    exact Set.Subset.refl _
  | .mk (some name) none, .mk _ (some s) =>
    cases hname
    exact Set.inter_subset_left

theorem union_uncovered (of : TypeExpr) : i.union (TypeExpr.uncovered of) = i.union of := by
  induction of using List.reverseRecOn with
  | nil => rfl
  | append_singleton rest v ih =>
    rw [TypeExpr.uncovered_append_singleton, union_append, union_append, union_singleton, ih]
    by_cases hany : rest.any (·.covers v) = true
    · obtain ⟨b, hb, hcovers⟩ := List.any_eq_true.1 hany
      have hsubset : i.variant v ⊆ i.union rest :=
        (i.variant_subset_of_covers hcovers).trans (i.variant_subset_union hb)
      rw [if_pos hany, union, Set.union_empty, Set.union_eq_self_of_subset_right hsubset]
    · rw [if_neg hany, union_singleton]

mutual

theorem variant_norm (v : Variant) : i.variant v.norm = i.variant v := by
  match v with
  | .mk _ none => rw [Variant.norm]
  | .mk none (some s) => rw [Variant.norm, variant, variant, shape_norm s]
  | .mk (some name) (some s) => rw [Variant.norm, variant, variant, shape_norm s]

theorem shape_norm (s : Shape) : i.shape s.norm = i.shape s := by
  cases s with
  | array of => rw [Shape.norm, shape, shape, union_uncovered, union_normVariants of]
  | tuple of => rw [Shape.norm, shape, shape, slots_normSlots of]
  | fields of subset => rw [Shape.norm, shape, shape, members_normFields of]

theorem field_norm (f : Field) : i.field f.norm = i.field f := by
  cases f with
  | mk key of => rw [Field.norm, field, field, union_uncovered, union_normVariants of]

theorem union_normVariants (of : List Variant) : i.union (normVariants of) = i.union of := by
  cases of with
  | nil => rfl
  | cons v rest => rw [normVariants, union, union, variant_norm v, union_normVariants rest]

theorem slots_normSlots (of : List (List Variant)) : i.slots (normSlots of) = i.slots of := by
  cases of with
  | nil => rfl
  | cons of rest =>
    rw [normSlots, slots, slots, union_uncovered, union_normVariants of, slots_normSlots rest]

theorem members_normFields (of : List Field) : i.members (normFields of) = i.members of := by
  cases of with
  | nil => rfl
  | cons f rest => rw [normFields, members, members, field_norm f, members_normFields rest]

end

/-- The normal form denotes the same values. -/
theorem union_norm (of : TypeExpr) : i.union (TypeExpr.norm of) = i.union of := by
  rw [TypeExpr.norm, union_uncovered, union_normVariants]

end Interpretation

end TypeNotation
