import TypeNotation.TypeExpr

set_option autoImplicit false

/-! # Equality of type expressions

Two type expressions are equal when they differ at most in the order in which records list their
keys. Everything else counts: names, kinds, the order of variants and of slots, and whether a
record lists all its keys. -/

namespace TypeNotation

/-- The type that a record gives to a key. -/
def Field.lookup (key : String) (fs : List Field) : Option TypeExpr :=
  (fs.find? (·.key = key)).map Field.of

mutual

/-- Whether two variants have one name and shapes that agree. -/
def Variant.equiv : Variant → Variant → Bool
  | .mk name none, .mk name' none => name = name'
  | .mk name (some shape), .mk name' (some shape') => name = name' && shape.equiv shape'
  | _, _ => false

/-- Whether two shapes are of one kind and agree part by part. The fields of a record may stand in
    another order. -/
def Shape.equiv : Shape → Shape → Bool
  | .array of, .array of' => variantsEquiv of of'
  | .tuple of, .tuple of' => slotsEquiv of of'
  | .fields of subset, .fields of' subset' =>
    subset = subset' && of.length = of'.length && fieldsWithin of of'
  | _, _ => false

/-- Whether two unions agree, variant by variant. -/
def variantsEquiv : List Variant → List Variant → Bool
  | [], [] => true
  | v :: rest, v' :: rest' => v.equiv v' && variantsEquiv rest rest'
  | _, _ => false

/-- Whether two tuples agree, slot by slot. -/
def slotsEquiv : List (List Variant) → List (List Variant) → Bool
  | [], [] => true
  | of :: rest, of' :: rest' => variantsEquiv of of' && slotsEquiv rest rest'
  | _, _ => false

/-- Whether each field has a field of the same key and an equal type among the others. -/
def fieldsWithin : List Field → List Field → Bool
  | [], _ => true
  | .mk key of :: rest, others =>
    (match Field.lookup key others with
      | some of' => variantsEquiv of of'
      | none => false) && fieldsWithin rest others

end

/-- Whether two type expressions agree, variant by variant. -/
def TypeExpr.equiv (of of' : TypeExpr) : Bool :=
  variantsEquiv of of'

end TypeNotation
