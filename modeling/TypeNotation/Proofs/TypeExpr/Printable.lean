import TypeNotation.Proofs.Lexeme.Scan
import TypeNotation.Proofs.TypeExpr.Normal

set_option autoImplicit false

/-! # Type expressions that can be written

Some type expressions have no specification: an empty union, a variant that is neither named nor
shaped, a name with a blank in it. `Printable` says which ones do have one, but for the depth of
their shapes, which `nesting` counts. Taking the normal form keeps a type expression printable and
makes it no deeper. -/

namespace TypeNotation

/-! ## How deep shapes are nested -/

mutual

/-- The number of shapes of a variant that lie inside one another where most do. -/
def Variant.nesting : Variant → Nat
  | .mk _ none => 0
  | .mk _ (some shape) => shape.nesting

/-- One more than the greatest `nesting` inside the shape. -/
def Shape.nesting : Shape → Nat
  | .array of => TypeExpr.nesting of + 1
  | .tuple of => slotsNesting of + 1
  | .fields of _ => fieldsNesting of + 1

/-- The `nesting` of the type of a field. -/
def Field.nesting : Field → Nat
  | .mk _ of => TypeExpr.nesting of

/-- The greatest `nesting` of a variant. -/
def TypeExpr.nesting : List Variant → Nat
  | [] => 0
  | v :: rest => max v.nesting (TypeExpr.nesting rest)

/-- The greatest `nesting` of a slot. -/
def slotsNesting : List (List Variant) → Nat
  | [] => 0
  | of :: rest => max (TypeExpr.nesting of) (slotsNesting rest)

/-- The greatest `nesting` of a field. -/
def fieldsNesting : List Field → Nat
  | [] => 0
  | f :: rest => max f.nesting (fieldsNesting rest)

end

theorem TypeExpr.nesting_le_iff {of : TypeExpr} {n : Nat} :
    nesting of ≤ n ↔ ∀ v ∈ of, v.nesting ≤ n := by
  induction of with
  | nil => simp [nesting]
  | cons v rest ih => rw [nesting, Nat.max_le, ih, List.forall_mem_cons]

theorem fieldsNesting_le_iff {fs : List Field} {n : Nat} :
    fieldsNesting fs ≤ n ↔ ∀ f ∈ fs, f.nesting ≤ n := by
  induction fs with
  | nil => simp [fieldsNesting]
  | cons f rest ih => rw [fieldsNesting, Nat.max_le, ih, List.forall_mem_cons]

theorem TypeExpr.nesting_append (of of' : TypeExpr) :
    nesting (of ++ of') = max (nesting of) (nesting of') := by
  induction of with
  | nil => simp [nesting]
  | cons v rest ih => rw [List.cons_append, nesting, nesting, ih, Nat.max_assoc]

/-! ## What can be written -/

/-- What a variant can be called: `*`, or a word. -/
def IsName (text : String) : Prop :=
  text = Variant.anyName ∨ IsWord text

/-- A union that is not empty and does not begin with a variant called `Maybe`. -/
def TypeExpr.StartsPlain (of : TypeExpr) : Prop :=
  ∃ v, of.head? = some v ∧ v.name ≠ some "Maybe"

theorem TypeExpr.startsPlain_cons {v : Variant} {rest : List Variant} :
    StartsPlain (v :: rest) ↔ v.name ≠ some "Maybe" := by
  simp [StartsPlain]

theorem TypeExpr.StartsPlain.ne_nil {of : TypeExpr} (h : StartsPlain of) : of ≠ [] := by
  rintro rfl
  obtain ⟨v, hv, -⟩ := h
  cases hv

mutual

/-- A variant that can be written has a name or a shape. -/
def Variant.Printable : Variant → Prop
  | .mk none none => False
  | .mk (some name) none => IsName name
  | .mk none (some shape) => shape.Printable
  | .mk (some name) (some shape) => IsName name ∧ shape.Printable

/-- A tuple that can be written has a slot, and a record that allows no other keys has a field.
    The keys of a record are distinct, as `Field.insert` keeps them. -/
def Shape.Printable : Shape → Prop
  | .array of => TypeExpr.StartsPlain of ∧ PrintableVariants of
  | .tuple of => of ≠ [] ∧ PrintableSlots of
  | .fields of subset =>
    (subset = false → of ≠ []) ∧ (of.map Field.key).Nodup ∧ PrintableFields of

/-- A field that can be written has a word for its key, and a union that can be written. -/
def Field.Printable : Field → Prop
  | .mk key of => IsWord key ∧ TypeExpr.StartsPlain of ∧ PrintableVariants of

/-- Each of the variants can be written. -/
def PrintableVariants : List Variant → Prop
  | [] => True
  | v :: rest => v.Printable ∧ PrintableVariants rest

/-- Each of the slots is a union that can be written. -/
def PrintableSlots : List (List Variant) → Prop
  | [] => True
  | of :: rest => (TypeExpr.StartsPlain of ∧ PrintableVariants of) ∧ PrintableSlots rest

/-- Each of the fields can be written. -/
def PrintableFields : List Field → Prop
  | [] => True
  | f :: rest => f.Printable ∧ PrintableFields rest

end

/-- A type expression that can be written, if only its shapes are not nested too deep. -/
def TypeExpr.Printable (of : TypeExpr) : Prop :=
  StartsPlain of ∧ PrintableVariants of

theorem printableVariants_iff {of : List Variant} :
    PrintableVariants of ↔ ∀ v ∈ of, v.Printable := by
  induction of with
  | nil => simp [PrintableVariants]
  | cons v rest ih => rw [PrintableVariants, ih, List.forall_mem_cons]

theorem printableFields_iff {fs : List Field} : PrintableFields fs ↔ ∀ f ∈ fs, f.Printable := by
  induction fs with
  | nil => simp [PrintableFields]
  | cons f rest ih => rw [PrintableFields, ih, List.forall_mem_cons]

/-! ## The normal form can be written -/

theorem TypeExpr.Printable.uncovered {of : TypeExpr} (h : Printable of) :
    Printable (uncovered of) := by
  obtain ⟨⟨v, hv, hname⟩, hof⟩ := h
  refine ⟨⟨v, by rw [head?_uncovered, hv], hname⟩, ?_⟩
  rw [printableVariants_iff] at hof ⊢
  exact fun v hv => hof v (mem_of_mem_uncovered hv)

theorem TypeExpr.nesting_uncovered_le (of : TypeExpr) : nesting (uncovered of) ≤ nesting of :=
  nesting_le_iff.2 fun v hv => nesting_le_iff.1 (Nat.le_refl _) v (mem_of_mem_uncovered hv)

theorem TypeExpr.StartsPlain.normVariants {of : TypeExpr} (h : StartsPlain of) :
    StartsPlain (normVariants of) := by
  obtain ⟨v, hv, hname⟩ := h
  exact ⟨v.norm, by rw [normVariants_eq_map, List.head?_map, hv]; rfl, by rwa [Variant.name_norm]⟩

mutual

theorem Variant.Printable.norm {v : Variant} (h : v.Printable) : v.norm.Printable := by
  match v with
  | .mk name none => exact h
  | .mk none (some shape) => exact Shape.Printable.norm (s := shape) h
  | .mk (some name) (some shape) => exact ⟨h.1, h.2.norm⟩

theorem Shape.Printable.norm {s : Shape} (h : s.Printable) : s.norm.Printable := by
  cases s with
  | array of => exact TypeExpr.Printable.uncovered ⟨h.1.normVariants, h.2.normVariants⟩
  | tuple of =>
    refine ⟨?_, h.2.normSlots⟩
    rw [normSlots_eq_map]
    simpa using h.1
  | fields of subset =>
    obtain ⟨hne, hnodup, hof⟩ := h
    have hkeys : (normFields of).map Field.key = of.map Field.key := by
      rw [normFields_eq_map, List.map_map]
      exact List.map_congr_left fun f _ => f.key_norm
    refine ⟨?_, by rwa [hkeys], hof.normFields⟩
    rw [normFields_eq_map]
    simpa using hne

theorem Field.Printable.norm {f : Field} (h : f.Printable) : f.norm.Printable := by
  cases f with
  | mk key of =>
    exact ⟨h.1, TypeExpr.Printable.uncovered ⟨h.2.1.normVariants, h.2.2.normVariants⟩⟩

theorem PrintableVariants.normVariants {of : List Variant} (h : PrintableVariants of) :
    PrintableVariants (normVariants of) := by
  cases of with
  | nil => trivial
  | cons v rest => exact ⟨h.1.norm, h.2.normVariants⟩

theorem PrintableSlots.normSlots {of : List (List Variant)} (h : PrintableSlots of) :
    PrintableSlots (normSlots of) := by
  cases of with
  | nil => trivial
  | cons of rest =>
    exact ⟨TypeExpr.Printable.uncovered ⟨h.1.1.normVariants, h.1.2.normVariants⟩, h.2.normSlots⟩

theorem PrintableFields.normFields {fs : List Field} (h : PrintableFields fs) :
    PrintableFields (normFields fs) := by
  cases fs with
  | nil => trivial
  | cons f rest => exact ⟨h.1.norm, h.2.normFields⟩

end

theorem TypeExpr.Printable.norm {of : TypeExpr} (h : Printable of) : Printable (norm of) :=
  Printable.uncovered ⟨h.1.normVariants, h.2.normVariants⟩

mutual

theorem Variant.nesting_norm_le (v : Variant) : v.norm.nesting ≤ v.nesting := by
  match v with
  | .mk name none => exact Nat.le_refl _
  | .mk name (some shape) => exact shape.nesting_norm_le

theorem Shape.nesting_norm_le (s : Shape) : s.norm.nesting ≤ s.nesting := by
  cases s with
  | array of =>
    exact Nat.succ_le_succ
      (Nat.le_trans (TypeExpr.nesting_uncovered_le _) (nesting_normVariants_le of))
  | tuple of => exact Nat.succ_le_succ (slotsNesting_normSlots_le of)
  | fields of subset => exact Nat.succ_le_succ (fieldsNesting_normFields_le of)

theorem Field.nesting_norm_le (f : Field) : f.norm.nesting ≤ f.nesting := by
  cases f with
  | mk key of => exact Nat.le_trans (TypeExpr.nesting_uncovered_le _) (nesting_normVariants_le of)

theorem nesting_normVariants_le (of : List Variant) :
    TypeExpr.nesting (normVariants of) ≤ TypeExpr.nesting of := by
  cases of with
  | nil => exact Nat.le_refl _
  | cons v rest =>
    have hv := v.nesting_norm_le
    have hrest := nesting_normVariants_le rest
    rw [normVariants, TypeExpr.nesting, TypeExpr.nesting]
    omega

theorem slotsNesting_normSlots_le (of : List (List Variant)) :
    slotsNesting (normSlots of) ≤ slotsNesting of := by
  cases of with
  | nil => exact Nat.le_refl _
  | cons of rest =>
    have hof := Nat.le_trans (TypeExpr.nesting_uncovered_le _) (nesting_normVariants_le of)
    have hrest := slotsNesting_normSlots_le rest
    rw [normSlots, slotsNesting, slotsNesting]
    omega

theorem fieldsNesting_normFields_le (fs : List Field) :
    fieldsNesting (normFields fs) ≤ fieldsNesting fs := by
  cases fs with
  | nil => exact Nat.le_refl _
  | cons f rest =>
    have hf := f.nesting_norm_le
    have hrest := fieldsNesting_normFields_le rest
    rw [normFields, fieldsNesting, fieldsNesting]
    omega

end

theorem TypeExpr.nesting_norm_le (of : TypeExpr) : nesting (norm of) ≤ nesting of :=
  Nat.le_trans (nesting_uncovered_le _) (nesting_normVariants_le of)

end TypeNotation
