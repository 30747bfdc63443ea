import TypeNotation.Token
import TypeNotation.TypeExpr

set_option autoImplicit false

/-! # Specifications as they are written

A tree records how a type expression was written, token by token: with which label, whether
through `Maybe`, with which commas. There is a type of trees for each rule of the grammar and a
constructor for each way to satisfy the rule. `tokens` writes a tree out again; `value` says which
type expression it stands for. -/

namespace TypeNotation

/-- What a variant can be called. -/
inductive Name where
  | star
  | word (text : String)
deriving DecidableEq

namespace Name

/-- The token that a name is written as. -/
def token : Name → Token
  | star => .star
  | word text => .identifier text

/-- The spelling of the token that a name is written as. -/
def text (name : Name) : String :=
  name.token.text

/-- The name that a token is, if it is one. Inverse to `token` by `token_of_ofToken?`. -/
def ofToken? : Token → Option Name
  | .star => some star
  | .identifier text => some (word text)
  | _ => none

theorem token_of_ofToken? {t : Token} {name : Name} (h : ofToken? t = some name) :
    name.token = t := by
  unfold ofToken? at h
  split at h
  · cases h; rfl
  · cases h; rfl
  · simp at h

end Name

mutual

/-- A union: a label and `::`, the word `Maybe`, and the variants. Only these have to be there. -/
inductive ExprTree where
  | mk (label : Option Token) (maybe : Bool) (of : VariantsTree)

/-- Variants, parted by `|`. -/
inductive VariantsTree where
  | last (v : VariantTree)
  | more (v : VariantTree) (rest : VariantsTree)

/-- A name, a name directly before a shape, or a shape. -/
inductive VariantTree where
  | bare (name : Name)
  | shaped (name : Name) (shape : ShapeTree)
  | anonymous (shape : ShapeTree)

/-- A union in brackets, slots in parentheses, or fields in braces. -/
inductive ShapeTree where
  | array (of : ExprTree)
  | tuple (of : SlotsTree)
  | fields (of : FieldsTree)

/-- At least one union, each with or without a comma behind it. -/
inductive SlotsTree where
  | last (of : ExprTree) (comma : Bool)
  | more (of : ExprTree) (comma : Bool) (rest : SlotsTree)

/-- Keys with `:` and a union, each with or without a comma behind it, and at the end a last one
    or `...`. -/
inductive FieldsTree where
  | last (key : String) (of : ExprTree) (comma : Bool)
  | ellipsis
  | more (key : String) (of : ExprTree) (comma : Bool) (rest : FieldsTree)

end

/-! ## The tokens of a tree -/

/-- The word that stands for the two variants `Undefined` and `Null`. -/
def maybeToken : Token := .identifier "Maybe"

/-- A label and the sign that ends it. -/
def labelTokens : Option Token → List Token
  | none => []
  | some label => [label, .doubleColon]

/-- The word `Maybe`, if it is written. -/
def maybeTokens (maybe : Bool) : List Token :=
  if maybe then [maybeToken] else []

/-- The comma behind a slot or field, if it is written. -/
def commaTokens (comma : Bool) : List Token :=
  if comma then [.comma] else []

mutual

/-- The tokens that a union is written with: the label, `Maybe`, and the variants. -/
def ExprTree.tokens : ExprTree → List Token
  | .mk label maybe of => labelTokens label ++ maybeTokens maybe ++ of.tokens

/-- The tokens of all variants, with a `|` between any two. -/
def VariantsTree.tokens : VariantsTree → List Token
  | .last v => v.tokens
  | .more v rest => v.tokens ++ .pipe :: rest.tokens

/-- The tokens of a variant: its name, and directly behind it its shape. -/
def VariantTree.tokens : VariantTree → List Token
  | .bare name => [name.token]
  | .shaped name shape => name.token :: shape.tokens
  | .anonymous shape => shape.tokens

/-- The tokens of a shape between its two brackets. -/
def ShapeTree.tokens : ShapeTree → List Token
  | .array of => .leftBracket :: of.tokens ++ [.rightBracket]
  | .tuple of => .leftParen :: of.tokens ++ [.rightParen]
  | .fields of => .leftBrace :: of.tokens ++ [.rightBrace]

/-- The tokens of the slots and of the commas that are written behind them. -/
def SlotsTree.tokens : SlotsTree → List Token
  | .last of comma => of.tokens ++ commaTokens comma
  | .more of comma rest => of.tokens ++ commaTokens comma ++ rest.tokens

/-- The tokens of the fields, of the commas that are written behind them, and of `...`. -/
def FieldsTree.tokens : FieldsTree → List Token
  | .last key of comma => .identifier key :: .colon :: of.tokens ++ commaTokens comma
  | .ellipsis => [.ellipsis]
  | .more key of comma rest =>
    .identifier key :: .colon :: of.tokens ++ commaTokens comma ++ rest.tokens

end

/-! ## The type expression of a tree -/

/-- The two variants that `Maybe` puts before the others. -/
def maybeVariants (maybe : Bool) : List Variant :=
  if maybe then [.named "Undefined", .named "Null"] else []

/-- Whether fields leave room for further keys. -/
def FieldsTree.subset : FieldsTree → Bool
  | .last _ _ _ => false
  | .ellipsis => true
  | .more _ _ _ rest => rest.subset

mutual

/-- The type expression of a union. Its label says nothing, `maybeVariants` come first, and variants
    that a bare one before them covers are dropped. -/
def ExprTree.value : ExprTree → TypeExpr
  | .mk _ maybe of => TypeExpr.dropCovered [] (maybeVariants maybe ++ of.values)

/-- All variants in the order in which they are written. -/
def VariantsTree.values : VariantsTree → List Variant
  | .last v => [v.value]
  | .more v rest => v.value :: rest.values

/-- The variant that is written, with the value of its shape. -/
def VariantTree.value : VariantTree → Variant
  | .bare name => .named name.text
  | .shaped name shape => .mk (some name.text) (some shape.value)
  | .anonymous shape => .anonymous shape.value

/-- The shape that is written. Of a repeated key `Field.gather` keeps the first place and the last
    type. -/
def ShapeTree.value : ShapeTree → Shape
  | .array of => .array of.value
  | .tuple of => .tuple of.values
  | .fields of => .fields (Field.gather of.values) of.subset

/-- The type expressions of all slots. -/
def SlotsTree.values : SlotsTree → List TypeExpr
  | .last of _ => [of.value]
  | .more of _ rest => of.value :: rest.values

/-- The fields in the order in which they are written, with repeated keys. -/
def FieldsTree.values : FieldsTree → List Field
  | .last key of _ => [.mk key of.value]
  | .ellipsis => []
  | .more key of _ rest => .mk key of.value :: rest.values

end

end TypeNotation
