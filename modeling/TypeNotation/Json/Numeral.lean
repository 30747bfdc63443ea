set_option autoImplicit false

/-! # Numerals

The numbers of a JSON document as they are spelt. A numeral whose magnitude no double-precision
number can hold is refused; since all digits beyond the first 64 bits' worth are dropped before
the magnitude is judged, the judgement is made on exact natural numbers here: a significand of at
most 64 bits, and a power of ten. -/

namespace TypeNotation

/-- A number as it is spelt. Of the exponent there is a sign and digits, if there is one. -/
structure Numeral where
  negative : Bool
  whole : List Char
  fraction : List Char
  exponent : Option (Bool × List Char)

/-! ## Double precision -/

/-- The nearest number with at most 53 significant bits, the even one of two. -/
def roundToDouble (n : Nat) : Nat :=
  let unit := 1 <<< (n.log2 - 52)
  let quotient := n / unit
  let twice := 2 * (n % unit)
  if twice < unit || (twice = unit && quotient % 2 = 0) then quotient * unit
  else (quotient + 1) * unit

/-- From here on the nearest double-precision number would be infinite. -/
def doubleLimit : Nat := ((1 <<< 54) - 1) <<< 970

/-- The largest exponent of a power of ten that is a double-precision number. -/
def maxPowerOfTen : Nat := 308

/-- Whether `significand * 10 ^ power` is in range when both factors and the product are rounded
    to double precision. -/
def fitsDouble (significand : Nat) (power : Int) : Bool :=
  significand = 0 || power < 0 ||
    (power ≤ maxPowerOfTen &&
      roundToDouble significand * roundToDouble (Nat.pow 10 power.toNat) < doubleLimit)

namespace Numeral

/-! ## The value of a numeral -/

/-- The largest number of 64 bits. -/
def maxWord : Nat := 0xFFFFFFFFFFFFFFFF

/-- The number that a decimal digit stands for. -/
def digitValue (c : Char) : Nat :=
  c.toNat - '0'.toNat

/-- Writes digits behind a number as long as it stays in 64 bits, and gives the digits that are
    left over. -/
def absorb (n : Nat) : List Char → Nat × List Char
  | [] => (n, [])
  | c :: rest =>
    let n' := 10 * n + digitValue c
    if n' ≤ maxWord then absorb n' rest else (n, c :: rest)

/-- The number that some digits spell. -/
def ofDigits (digits : List Char) : Nat :=
  digits.foldl (fun n c => 10 * n + digitValue c) 0

/-- The power of ten that the exponent asks for. -/
def power (n : Numeral) : Int :=
  match n.exponent with
  | none => 0
  | some (true, digits) => -(ofDigits digits : Int)
  | some (false, digits) => ofDigits digits

/-- Whether the numeral is in range. Digits before the point that do not fit into the significand
    raise the power; digits behind it lower the power if they fit and do not count otherwise. -/
def fits (n : Numeral) : Bool :=
  let (significand, left) := absorb 0 n.whole
  let (significand, left') := absorb significand n.fraction
  fitsDouble significand (left.length - (n.fraction.length - left'.length) + n.power)

/-- The natural number that is spelt, if it is spelt as one and fits into 64 bits. -/
def natural? (n : Numeral) : Option Nat :=
  match n with
  | ⟨false, whole, [], none⟩ =>
    match absorb 0 whole with
    | (value, []) => some value
    | (_, _ :: _) => none
  | _ => none

/-- How the numeral is spelt, with a small `e` and no plus sign. -/
def chars (n : Numeral) : List Char :=
  (if n.negative then ['-'] else []) ++ n.whole ++
    (if n.fraction = [] then [] else '.' :: n.fraction) ++
    (match n.exponent with
      | none => []
      | some (negative, digits) => 'e' :: (if negative then ['-'] else []) ++ digits)

end Numeral

end TypeNotation
