import TypeNotation.Json.Read
import TypeNotation.TypeExpr

set_option autoImplicit false

/-! # Type expressions from JSON

The outside of a document is read strictly and the inside leniently. The document has to be an
array of objects in each of which the key `type` stands at most once, with a string or null.
Everything else in an object is an attempt to describe a shape: an attempt that fails in any way
leaves the variant without a shape and is no flaw of the document. A variant inside a shape makes
the attempt around it fail if it is not what the outside of a document asks for; if only its own
attempt fails, it has no shape. -/

namespace TypeNotation

open Json (CharReader Flaw MemberReader)

/-- The members of an object. -/
abbrev Members := List (String × Json)

/-- The values that an object gives to a key. -/
def Members.valuesAt (key : String) (members : Members) : List Json :=
  (members.filter (·.1 = key)).map Prod.snd

/-! ## Names -/

/-- Whether an object can be a variant: it says at most once how the variant is called. -/
def Members.nameable (members : Members) : Bool :=
  match members.valuesAt "type" with
  | [] | [.null] | [.string _] => true
  | _ => false

/-- How a variant is called. -/
def Members.name (members : Members) : Option String :=
  match members.valuesAt "type" with
  | [.string name] => some name
  | _ => none

/-! ## Shapes -/

/-- Which shape an object describes. -/
inductive Outline where
  | array
  | tuple
  | fields (subset : Bool)

/-- The kind of shape that is meant by a value: its name, or its number in their order. -/
def ShapeKind.ofJson? : Json → Option ShapeKind
  | .string name =>
    if name = ShapeKind.array.name then some .array
    else if name = ShapeKind.tuple.name then some .tuple
    else if name = ShapeKind.fields.name then some .fields
    else none
  | .natural 0 => some .array
  | .natural 1 => some .tuple
  | .natural 2 => some .fields
  | _ => none

/-- The outline that an object gives, if it names one kind of shape, and in the case of a record
    says once whether it lists only a subset of the keys. -/
def Members.outline? (members : Members) : Option Outline :=
  match members.valuesAt "structure" with
  | [value] =>
    match ShapeKind.ofJson? value with
    | some .array => some .array
    | some .tuple => some .tuple
    | some .fields =>
      match members.valuesAt "subset" with
      | [.bool subset] => some (.fields subset)
      | _ => none
    | none => none
  | _ => none

/-- The only element of a list of one. -/
def theOnly {α : Type} : List (Option α) → Option α
  | [a] => a
  | _ => none

mutual

/-- The variant that a value describes: an object that is `Members.nameable`, with a shape if its
    attempt to describe one succeeds. -/
def Variant.ofJson? : Json → Option Variant
  | .object members =>
    if Members.nameable members then
      some (.mk (Members.name members) (theOnly (shapesOf (Members.outline? members) members)))
    else none
  | _ => none

/-- The shapes that the values under the key `of` describe. -/
def shapesOf (outline : Option Outline) : List (String × Json) → List (Option Shape)
  | [] => []
  | (key, value) :: rest =>
    if key = "of" then shapeOf outline value :: shapesOf outline rest
    else shapesOf outline rest

/-- The shape of a known outline that is made of what a value describes. -/
def shapeOf : Option Outline → Json → Option Shape
  | some .array, .array items => (decodeVariants items).map .array
  | some .tuple, .array items => (decodeSlots items).map .tuple
  | some (.fields subset), .object members =>
    (decodeFields members).map fun fs => .fields (Field.gather fs) subset
  | _, _ => none

/-- The variants that all items describe, if each of them describes one. -/
def decodeVariants : List Json → Option (List Variant)
  | [] => some []
  | item :: rest => do return (← Variant.ofJson? item) :: (← decodeVariants rest)

/-- The slots that all items describe, if each of them is an array that describes one. -/
def decodeSlots : List Json → Option (List (List Variant))
  | [] => some []
  | .array items :: rest => do return (← decodeVariants items) :: (← decodeSlots rest)
  | _ :: _ => none

/-- The fields that all members describe, if the value of each of them is an array that describes a
    type. -/
def decodeFields : List (String × Json) → Option (List Field)
  | [] => some []
  | (key, .array items) :: rest => do
    return .mk key (← decodeVariants items) :: (← decodeFields rest)
  | _ :: _ => none

end

/-- The variant that an object describes. -/
def Variant.ofMembers (members : Members) : Variant :=
  .mk members.name (theOnly (shapesOf members.outline? members))

/-! ## The outside of a document -/

namespace Outside

/-- Reads the name of a variant: a string or null. -/
def readName (cs : List Char) : Except Flaw (Json × List Char) :=
  match Json.skipRoom cs with
  | 'n' :: rest => Json.readScalar ('n' :: rest)
  | '"' :: rest => Json.readScalar ('"' :: rest)
  | cs => .error (Json.otherType cs)

/-- `readName` as a reader. -/
def name : CharReader Json where
  read := readName
  shortens {cs _ _} h := by
    have := Json.length_skipRoom_le cs
    fun_cases readName cs <;> grind [readName]

/-- A second name is a flaw even before its value is read. -/
def repeatedName : CharReader Json where
  read _ := .error .mistyped
  shortens h := by simp at h

/-- Reads a member of a variant's object. -/
def member (value : CharReader Json) : MemberReader (String × Json) := fun before key =>
  if key = "type" then
    if before.any (·.1 = "type") then repeatedName.map (key, ·)
    else Json.behindColon (name.map (key, ·))
  else Json.behindColon (value.map (key, ·))

/-- Reads an object that describes a variant. -/
def readObject (value : CharReader Json) (cs : List Char) : Except Flaw (Members × List Char) :=
  match Json.skipRoom cs with
  | '{' :: rest => Json.readMembers (member value) rest
  | cs => .error (Json.otherType cs)

/-- `readObject value` as a reader. -/
def object (value : CharReader Json) : CharReader Members where
  read := readObject value
  shortens {cs _ _} h := by
    have := Json.length_skipRoom_le cs
    fun_cases readObject value cs <;> grind [readObject]

/-- Reads the array of all variants. -/
def readArray (variant : CharReader Variant) (cs : List Char) :
    Except Flaw (TypeExpr × List Char) :=
  match Json.skipRoom cs with
  | '[' :: rest => Json.readItems variant rest
  | cs => .error (Json.otherType cs)

/-- `readArray variant` as a reader. -/
def array (variant : CharReader Variant) : CharReader TypeExpr where
  read := readArray variant
  shortens {cs _ _} h := by
    have := Json.length_skipRoom_le cs
    fun_cases readArray variant cs <;> grind [readArray]

/-- A document's array and a variant's object are two of the levels that may be open. -/
def document : CharReader TypeExpr :=
  array ((object (Json.valueAt (Json.depthLimit - 2))).map Variant.ofMembers)

end Outside

/-- The type expression that a JSON document describes. -/
def TypeExpr.ofJsonText (text : String) : Except Flaw TypeExpr :=
  Json.readDocument Outside.document text

end TypeNotation
