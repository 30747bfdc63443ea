import TypeNotation.TypeExpr

set_option autoImplicit false

/-! # The canonical text of a type expression

One spelling for each type: variants are parted by ` | `, slots and fields by a comma and a space,
and a name stands directly before its shape. Names and keys are written as they are. -/

namespace TypeNotation

/-- The elements of a list with a separator between them. -/
def separated (separator : String) (parts : List (List Char)) : List Char :=
  separator.toList.intercalate parts

/-- The text of a name that may be absent. -/
def nameChars (name : Option String) : List Char :=
  (name.getD "").toList

mutual

/-- The characters of a variant: its name, and directly behind it its shape. -/
def Variant.chars : Variant → List Char
  | .mk name none => nameChars name
  | .mk name (some shape) => nameChars name ++ shape.chars

/-- The characters of a shape between its brackets. -/
def Shape.chars : Shape → List Char
  | .array of => '[' :: separated " | " (variantTexts of) ++ [']']
  | .tuple of => '(' :: separated ", " (slotTexts of) ++ [')']
  | .fields of subset =>
    '{' :: separated ", " (fieldTexts of ++ if subset then [['.', '.', '.']] else []) ++ ['}']

/-- The characters of a field: its key, a colon and a space, and its type. -/
def Field.chars : Field → List Char
  | .mk key of => key.toList ++ [':', ' '] ++ separated " | " (variantTexts of)

/-- The texts of the variants of a union. -/
def variantTexts : List Variant → List (List Char)
  | [] => []
  | v :: rest => v.chars :: variantTexts rest

/-- The texts of the slots of a tuple. -/
def slotTexts : List (List Variant) → List (List Char)
  | [] => []
  | of :: rest => separated " | " (variantTexts of) :: slotTexts rest

/-- The texts of the fields of a record. -/
def fieldTexts : List Field → List (List Char)
  | [] => []
  | f :: rest => f.chars :: fieldTexts rest

end

/-- The characters of `TypeExpr.text`. -/
def TypeExpr.chars (of : TypeExpr) : List Char :=
  separated " | " (variantTexts of)

/-- The canonical text of a variant. -/
def Variant.text (v : Variant) : String :=
  String.ofList v.chars

/-- The canonical text of a type expression. -/
def TypeExpr.text (of : TypeExpr) : String :=
  String.ofList of.chars

end TypeNotation
