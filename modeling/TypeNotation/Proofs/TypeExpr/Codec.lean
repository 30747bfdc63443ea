import TypeNotation.Proofs.TypeExpr.Merged
import TypeNotation.Proofs.Json.Depth
import TypeNotation.TypeExpr.Decode
import TypeNotation.TypeExpr.Encode

set_option autoImplicit false

/-! # Type expressions as JSON values

What a type expression is encoded as describes that type expression, as long as the keys of every
record in it are distinct: an object's repeated key would be given its last type. -/

namespace TypeNotation

/-! ## Distinct keys -/

mutual

/-- The keys of every record in the variant are distinct. -/
def Variant.WellKeyed : Variant → Prop
  | .mk _ none => True
  | .mk _ (some shape) => shape.WellKeyed

/-- The keys of every record in the shape are distinct, also those of the shape itself. -/
def Shape.WellKeyed : Shape → Prop
  | .array of => WellKeyedVariants of
  | .tuple of => WellKeyedSlots of
  | .fields of _ => (of.map Field.key).Nodup ∧ WellKeyedFields of

/-- Each of the variants is `WellKeyed`. -/
def WellKeyedVariants : List Variant → Prop
  | [] => True
  | v :: rest => v.WellKeyed ∧ WellKeyedVariants rest

/-- Each variant of each of the slots is `WellKeyed`. -/
def WellKeyedSlots : List (List Variant) → Prop
  | [] => True
  | of :: rest => WellKeyedVariants of ∧ WellKeyedSlots rest

/-- Each variant of each of the fields is `WellKeyed`. Of the keys themselves nothing is said. -/
def WellKeyedFields : List Field → Prop
  | [] => True
  | .mk _ of :: rest => WellKeyedVariants of ∧ WellKeyedFields rest

end

/-- The keys of every record are distinct, as `Field.insert` keeps them. -/
def TypeExpr.WellKeyed (of : TypeExpr) : Prop :=
  WellKeyedVariants of

theorem wellKeyedVariants_iff {of : List Variant} :
    WellKeyedVariants of ↔ ∀ v ∈ of, v.WellKeyed := by
  induction of with
  | nil => simp [WellKeyedVariants]
  | cons v rest ih => rw [WellKeyedVariants, ih, List.forall_mem_cons]

/-! ## The members that describe a variant -/

/-- The members of a variant's object. -/
def Variant.members : Variant → Members
  | .mk name none => typeMember name
  | .mk name (some shape) => typeMember name ++ shape.members

theorem Variant.toJson_eq (v : Variant) : v.toJson = .object v.members := by
  obtain ⟨name, _ | shape⟩ := v
  · rfl
  · rfl

theorem encodeVariants_eq_map (of : List Variant) : encodeVariants of = of.map Variant.toJson := by
  induction of with
  | nil => rfl
  | cons v rest ih => rw [encodeVariants, ih, List.map_cons]

/-- Which of the three outlines a shape has. -/
def Shape.outline : Shape → Outline
  | .array _ => .array
  | .tuple _ => .tuple
  | .fields _ subset => .fields subset

/-- The value under the key `of`. -/
def Shape.content : Shape → Json
  | .array of => .array (encodeVariants of)
  | .tuple of => .array (encodeSlots of)
  | .fields of _ => .object (encodeFields of)

theorem Members.valuesAt_append (key : String) (ms ms' : Members) :
    Members.valuesAt key (ms ++ ms') = ms.valuesAt key ++ ms'.valuesAt key := by
  simp [Members.valuesAt]

theorem valuesAt_typeMember (key : String) (name : Option String) :
    Members.valuesAt key (typeMember name)
      = if key = "type" then (name.map Json.string).toList else [] := by
  cases name with
  | none => simp [typeMember, Members.valuesAt]
  | some name => by_cases h : key = "type" <;> simp [typeMember, Members.valuesAt, h, eq_comm]

theorem valuesAt_type_members (s : Shape) : Members.valuesAt "type" s.members = [] := by
  cases s with
  | array of => rfl
  | tuple of => rfl
  | fields of subset => rfl

theorem valuesAt_type (v : Variant) :
    v.members.valuesAt "type" = (v.name.map Json.string).toList := by
  obtain ⟨name, _ | shape⟩ := v
  · simp [Variant.members, valuesAt_typeMember, Variant.name]
  · simp [Variant.members, Members.valuesAt_append, valuesAt_typeMember, valuesAt_type_members,
      Variant.name]

theorem nameable_members (v : Variant) : v.members.nameable = true := by
  rw [Members.nameable, valuesAt_type]
  cases v.name with
  | none => rfl
  | some name => rfl

theorem name_members (v : Variant) : v.members.name = v.name := by
  rw [Members.name, valuesAt_type]
  cases v.name with
  | none => rfl
  | some name => rfl

theorem ShapeKind.ofJson?_name (kind : ShapeKind) :
    ShapeKind.ofJson? (.string kind.name) = some kind := by
  cases kind with
  | array => rfl
  | tuple => rfl
  | fields => rfl

/-- The name of a variant takes no part in what its shape is made of. -/
theorem outline?_members (name : Option String) (s : Shape) :
    Members.outline? (typeMember name ++ s.members) = some s.outline := by
  have hstructure : Members.valuesAt "structure" (typeMember name ++ s.members)
      = [.string s.kind.name] := by
    rw [Members.valuesAt_append, valuesAt_typeMember]
    cases s with
    | array of => rfl
    | tuple of => rfl
    | fields of subset => rfl
  have hsubset : Members.valuesAt "subset" (typeMember name ++ s.members)
      = Members.valuesAt "subset" s.members := by
    rw [Members.valuesAt_append, valuesAt_typeMember]
    rfl
  rw [Members.outline?, hstructure, hsubset]
  simp only [ShapeKind.ofJson?_name]
  cases s with
  | array of => rfl
  | tuple of => rfl
  | fields of subset => rfl

theorem shapesOf_members (outline : Option Outline) (name : Option String) (s : Shape) :
    shapesOf outline (typeMember name ++ s.members) = [shapeOf outline s.content] := by
  have hshape : shapesOf outline s.members = [shapeOf outline s.content] := by
    cases s with
    | array of => simp [Shape.members, Shape.content, kindMember, shapesOf]
    | tuple of => simp [Shape.members, Shape.content, kindMember, shapesOf]
    | fields of subset => simp [Shape.members, Shape.content, kindMember, shapesOf]
  cases name with
  | none => exact hshape
  | some name => rw [typeMember, List.singleton_append, shapesOf, if_neg (by decide), hshape]

theorem Variant.ofJson?_object {ms : Members} (h : ms.nameable = true) :
    Variant.ofJson? (.object ms) = some (Variant.ofMembers ms) := by
  rw [Variant.ofJson?, if_pos h]
  rfl

/-! ## Decoding what is encoded -/

mutual

theorem Variant.ofMembers_members (v : Variant) (h : v.WellKeyed) :
    Variant.ofMembers v.members = v := by
  match v with
  | .mk name none =>
    cases name with
    | none => rfl
    | some name => rfl
  | .mk name (some shape) =>
    rw [Variant.ofMembers, name_members, Variant.members, outline?_members, shapesOf_members,
      shape.shapeOf_content h, theOnly]
    rfl

theorem Shape.shapeOf_content (s : Shape) (h : s.WellKeyed) :
    shapeOf (some s.outline) s.content = some s := by
  cases s with
  | array of =>
    rw [Shape.outline, Shape.content, shapeOf, decodeVariants_encodeVariants of h]
    rfl
  | tuple of =>
    rw [Shape.outline, Shape.content, shapeOf, decodeSlots_encodeSlots of h]
    rfl
  | fields of subset =>
    rw [Shape.outline, Shape.content, shapeOf, decodeFields_encodeFields of h.2]
    rw [Option.map_some, Field.gather_eq_self h.1]

theorem decodeVariants_encodeVariants (of : List Variant) (h : WellKeyedVariants of) :
    decodeVariants (encodeVariants of) = some of := by
  cases of with
  | nil => rfl
  | cons v rest =>
    rw [encodeVariants, decodeVariants, v.toJson_eq, Variant.ofJson?_object (nameable_members v),
      v.ofMembers_members h.1, decodeVariants_encodeVariants rest h.2]
    rfl

theorem decodeSlots_encodeSlots (of : List (List Variant)) (h : WellKeyedSlots of) :
    decodeSlots (encodeSlots of) = some of := by
  cases of with
  | nil => rfl
  | cons of rest =>
    rw [encodeSlots, decodeSlots, decodeVariants_encodeVariants of h.1,
      decodeSlots_encodeSlots rest h.2]
    rfl

theorem decodeFields_encodeFields (of : List Field) (h : WellKeyedFields of) :
    decodeFields (encodeFields of) = some of := by
  match of with
  | [] => rfl
  | .mk key of :: rest =>
    rw [encodeFields, decodeFields, decodeVariants_encodeVariants of h.1,
      decodeFields_encodeFields rest h.2]
    rfl

end

end TypeNotation
