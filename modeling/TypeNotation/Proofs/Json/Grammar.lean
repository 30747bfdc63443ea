import TypeNotation.Proofs.Json.Depth
import TypeNotation.Proofs.Json.Style

set_option autoImplicit false

/-! # The grammar of JSON

Which texts are documents, and which value each of them spells. The rules say nothing of readers, of
where a reader looks next, or of how deep a value may be. What a numeral in range is, is a matter of
`Numeral.fits`, and no other bound is set to numbers. -/

namespace TypeNotation.Json

/-! ## Strings -/

/-- Four hexadecimal digits spell a number. -/
inductive SpellsHex : List Char → Nat → Prop
  | mk {a b c d : Char} {n : Nat} (h : hexNumber? a b c d = some n) : SpellsHex [a, b, c, d] n

/-- A character as it is spelt behind a backslash: with a character of its own, or with its number
    or two surrogates. No surrogate stands alone. -/
inductive SpellsEscape : List Char → Char → Prop
  | short {e c : Char} (h : unescape? e = some c) : SpellsEscape [e] c
  | unicode {digits : List Char} {n : Nat} (h : SpellsHex digits n)
      (hhigh : isHighSurrogate n = false) (hlow : isLowSurrogate n = false) :
      SpellsEscape ('u' :: digits) (Char.ofNat n)
  | surrogates {digits digits' : List Char} {high low : Nat} (h : SpellsHex digits high)
      (hhigh : isHighSurrogate high = true) (h' : SpellsHex digits' low)
      (hlow : isLowSurrogate low = true) :
      SpellsEscape ('u' :: (digits ++ '\\' :: 'u' :: digits')) (ofSurrogates high low)

/-- A character as it is spelt in a string. -/
inductive SpellsChar : List Char → Char → Prop
  | plain {c : Char} (hquote : c ≠ '"') (hbackslash : c ≠ '\\') (hcontrol : 0x20 ≤ c.toNat) :
      SpellsChar [c] c
  | escaped {cs : List Char} {c : Char} (h : SpellsEscape cs c) : SpellsChar ('\\' :: cs) c

/-- What stands between the quotes of a string. -/
inductive SpellsChars : List Char → List Char → Prop
  | nil : SpellsChars [] []
  | cons {cs rest text : List Char} {c : Char} (hc : SpellsChar cs c) (h : SpellsChars rest text) :
      SpellsChars (cs ++ rest) (c :: text)

/-- A string between its quotes. -/
inductive SpellsString : List Char → String → Prop
  | mk {inner text : List Char} (h : SpellsChars inner text) :
      SpellsString ('"' :: (inner ++ ['"'])) (String.ofList text)

/-! ## Numbers -/

/-- At least one digit. -/
def Digits (cs : List Char) : Prop :=
  cs ≠ [] ∧ ∀ c ∈ cs, c.isDigit = true

/-- Digits of which no zero leads the others. -/
def Whole (cs : List Char) : Prop :=
  Digits cs ∧ (cs.head? = some '0' → cs = ['0'])

/-- The sign in front of a number, and whether the number is negative. -/
inductive SpellsMinus : List Char → Bool → Prop
  | absent : SpellsMinus [] false
  | present : SpellsMinus ['-'] true

/-- The point and the digits behind it. No digits mean that there is no point. -/
inductive SpellsFraction : List Char → List Char → Prop
  | absent : SpellsFraction [] []
  | present {digits : List Char} (h : Digits digits) : SpellsFraction ('.' :: digits) digits

/-- The sign in front of an exponent, and whether the exponent is negative. -/
inductive SpellsSign : List Char → Bool → Prop
  | absent : SpellsSign [] false
  | plus : SpellsSign ['+'] false
  | minus : SpellsSign ['-'] true

/-- An exponent behind `e` or `E`, if there is one: whether it is negative, and its digits. -/
inductive SpellsExponent : List Char → Option (Bool × List Char) → Prop
  | absent : SpellsExponent [] none
  | present {e : Char} {sign digits : List Char} {negative : Bool} (he : e = 'e' ∨ e = 'E')
      (hsign : SpellsSign sign negative) (h : Digits digits) :
      SpellsExponent (e :: (sign ++ digits)) (some (negative, digits))

/-- A number, taken apart into its sign, its digits before and behind the point, and its exponent.
    -/
inductive SpellsNumeral : List Char → Numeral → Prop
  | mk {minus whole point power fraction : List Char} {negative : Bool}
      {exponent : Option (Bool × List Char)} (hminus : SpellsMinus minus negative)
      (hwhole : Whole whole) (hfraction : SpellsFraction point fraction)
      (hexponent : SpellsExponent power exponent) :
      SpellsNumeral (minus ++ (whole ++ (point ++ power))) ⟨negative, whole, fraction, exponent⟩

/-- The value of a numeral, if it is in range. -/
def numeralValue (n : Numeral) : Json :=
  match n.natural? with
  | some value => natural value
  | none => decimal (String.ofList n.chars)

/-! ## Values -/

/-- A value that is neither an array nor an object. -/
inductive SpellsScalar : List Char → Json → Prop
  | nullWord : SpellsScalar ['n', 'u', 'l', 'l'] null
  | trueWord : SpellsScalar ['t', 'r', 'u', 'e'] (bool true)
  | falseWord : SpellsScalar ['f', 'a', 'l', 's', 'e'] (bool false)
  | string {cs : List Char} {s : String} (h : SpellsString cs s) : SpellsScalar cs (string s)
  | number {cs : List Char} {n : Numeral} (h : SpellsNumeral cs n) (hfits : n.fits = true) :
      SpellsScalar cs (numeralValue n)

section

variable {α : Type}

/-- One part or more with commas between them, and room around each. -/
inductive SpellsParts (spells : List Char → α → Prop) : List Char → List α → Prop
  | last {before text behind : List Char} {a : α} (hbefore : AllRoom before) (h : spells text a)
      (hbehind : AllRoom behind) : SpellsParts spells (before ++ (text ++ behind)) [a]
  | more {before text behind rest : List Char} {a : α} {as : List α} (hbefore : AllRoom before)
      (h : spells text a) (hbehind : AllRoom behind) (hrest : SpellsParts spells rest as) :
      SpellsParts spells (before ++ (text ++ (behind ++ ',' :: rest))) (a :: as)

/-- Parts between two brackets, or nothing but room between them. -/
inductive SpellsBracketed (opening closing : Char) (spells : List Char → α → Prop) :
    List Char → List α → Prop
  | empty {room : List Char} (h : AllRoom room) :
      SpellsBracketed opening closing spells (opening :: (room ++ [closing])) []
  | parts {inner : List Char} {as : List α} (h : SpellsParts spells inner as) :
      SpellsBracketed opening closing spells (opening :: (inner ++ [closing])) as

/-- A key and what belongs to it. -/
inductive SpellsMember (spells : List Char → α → Prop) : List Char → String × α → Prop
  | mk {cs before behind text : List Char} {key : String} {a : α} (hkey : SpellsString cs key)
      (hbefore : AllRoom before) (hbehind : AllRoom behind) (h : spells text a) :
      SpellsMember spells (cs ++ (before ++ ':' :: (behind ++ text))) (key, a)

end

/-- A text spells a value, without any room before or behind it. -/
inductive Spells : List Char → Json → Prop
  | scalar {cs : List Char} {value : Json} (h : SpellsScalar cs value) : Spells cs value
  | array {cs : List Char} {items : List Json} (h : SpellsBracketed '[' ']' Spells cs items) :
      Spells cs (array items)
  | object {cs : List Char} {members : List (String × Json)}
      (h : SpellsBracketed '{' '}' (SpellsMember Spells) cs members) :
      Spells cs (object members)

/-- A text spells one value and has nothing else than room around it. -/
def IsDocument (text : String) (value : Json) : Prop :=
  ∃ before cs behind, AllRoom before ∧ AllRoom behind ∧ text.toList = before ++ (cs ++ behind) ∧
    Spells cs value

end TypeNotation.Json
