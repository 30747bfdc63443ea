import TypeNotation.Json
import TypeNotation.TypeExpr

set_option autoImplicit false

/-! # Type expressions as JSON

A type expression is an array with an object for each variant. What a variant lacks is left out of
its object, and a record's keys become the keys of an object in the same order. -/

namespace TypeNotation

/-- The member that says how a variant is called. -/
def typeMember : Option String → List (String × Json)
  | none => []
  | some name => [("type", .string name)]

/-- The member that says of which kind a shape is. -/
def kindMember (kind : ShapeKind) : String × Json :=
  ("structure", .string kind.name)

mutual

/-- The object that describes a variant. -/
def Variant.toJson : Variant → Json
  | .mk name none => .object (typeMember name)
  | .mk name (some shape) => .object (typeMember name ++ shape.members)

/-- The members that describe a shape. -/
def Shape.members : Shape → List (String × Json)
  | .array of => [kindMember .array, ("of", .array (encodeVariants of))]
  | .tuple of => [kindMember .tuple, ("of", .array (encodeSlots of))]
  | .fields of subset =>
    [kindMember .fields, ("of", .object (encodeFields of)), ("subset", .bool subset)]

/-- The object of each of the variants. -/
def encodeVariants : List Variant → List Json
  | [] => []
  | v :: rest => v.toJson :: encodeVariants rest

/-- The array of each of the slots. -/
def encodeSlots : List (List Variant) → List Json
  | [] => []
  | of :: rest => .array (encodeVariants of) :: encodeSlots rest

/-- The member of each of the fields, whose key is that of the field. -/
def encodeFields : List Field → List (String × Json)
  | [] => []
  | .mk key of :: rest => (key, .array (encodeVariants of)) :: encodeFields rest

end

/-- The array that describes a type expression. -/
def TypeExpr.toJson (of : TypeExpr) : Json :=
  .array (encodeVariants of)

end TypeNotation
