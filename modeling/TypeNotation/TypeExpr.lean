set_option autoImplicit false

/-! # Type expressions

What a specification stands for. A type expression is a union: the list of its variants, any of
which may hold. A variant is a name, a shape, or a named shape; a shape says what an array, a
tuple or a record is made of.

Nothing here forbids what no specification can say, such as an empty union or a variant that is
neither named nor shaped. Only the keys of a record are kept distinct by the operations that build
one: `Field.insert` puts a repeated key's new type where the key first stood. -/

namespace TypeNotation

mutual

/-- One way to be of a type: by name, by shape, or by both. -/
inductive Variant where
  | mk (name : Option String) (shape : Option Shape)

/-- What a structured value is made of. -/
inductive Shape where
  /-- Any number of values of one type. -/
  | array (of : List Variant)
  /-- One value for each slot, in order. -/
  | tuple (of : List (List Variant))
  /-- A record. Keys that are not listed are allowed if only a subset of them is. -/
  | fields (of : List Field) (subset : Bool)

/-- A key of a record and the type of its value. -/
inductive Field where
  | mk (key : String) (of : List Variant)

end

/-- A type: the union of its variants. -/
abbrev TypeExpr := List Variant

namespace Variant

/-- How a variant is called, if it has a name. -/
def name : Variant → Option String
  | mk name _ => name

/-- The shape of a variant, if it has one. -/
def shape : Variant → Option Shape
  | mk _ shape => shape

/-- The variant that is all values of a named type. -/
def named (name : String) : Variant :=
  mk (some name) none

/-- The variant that is all values of one shape. -/
def anonymous (shape : Shape) : Variant :=
  mk none (some shape)

/-- The name that stands for every type. -/
def anyName : String := "*"

/-- The variant that every value satisfies. -/
def wildcard : Variant :=
  named anyName

/-- The same variant under another name. -/
def withName (name : String) : Variant → Variant
  | mk _ shape => mk (some name) shape

/-- Whether a variant bears the name `anyName`, with or without a shape. -/
def isWildcard (v : Variant) : Bool :=
  v.name == some anyName

/-- Whether a variant is a name and nothing else. -/
def isBare (v : Variant) : Bool :=
  v.name.isSome && v.shape.isNone

end Variant

/-- The three kinds of shape. -/
inductive ShapeKind where
  | array
  | tuple
  | fields
deriving DecidableEq

/-- How a kind of shape is called. -/
def ShapeKind.name : ShapeKind → String
  | array => "array"
  | tuple => "tuple"
  | fields => "fields"

/-- Of which kind a shape is. -/
def Shape.kind : Shape → ShapeKind
  | array _ => .array
  | tuple _ => .tuple
  | fields _ _ => .fields

namespace Field

/-- The key of a field. -/
def key : Field → String
  | mk key _ => key

/-- The type that a field gives to its key. -/
def of : Field → TypeExpr
  | mk _ of => of

/-- Adds a field at the end, or replaces the one of the same key where it stands. -/
def insert (f : Field) : List Field → List Field
  | [] => [f]
  | g :: rest => if g.key = f.key then f :: rest else g :: insert f rest

/-- The fields of a record whose keys are given one after the other: each key stands where it
    first occurred and has the type it was last given. -/
def gather (fs : List Field) : List Field :=
  fs.foldl (fun acc f => insert f acc) []

theorem keys_insert (f : Field) (fs : List Field) :
    (insert f fs).map key = if f.key ∈ fs.map key then fs.map key else fs.map key ++ [f.key] := by
  induction fs with
  | nil => rfl
  | cons g rest ih => grind [insert]

end Field

namespace TypeExpr

/-- Leaves out each variant that bears a name of `seen`, or the name of a bare variant before it:
    the bare name already admits all that the variant admits. -/
def dropCovered (seen : List String) : TypeExpr → TypeExpr
  | [] => []
  | v :: rest =>
    match v.name with
    | none => v :: dropCovered seen rest
    | some name =>
      if name ∈ seen then dropCovered seen rest
      else v :: dropCovered (if v.isBare then name :: seen else seen) rest

end TypeExpr

end TypeNotation
