import TypeNotation.Basic
import TypeNotation.Json
import TypeNotation.Json.Numeral

set_option autoImplicit false

/-! # Reading the smallest parts of JSON

Strings, numbers and the three words. The text is read from left to right and the first flaw
decides. Only the space, the tabulator and the two line ends count as room between the parts. -/

namespace TypeNotation.Json

/-- What can be wrong with a document. -/
inductive Flaw where
  /-- The text ends too early. -/
  | ended
  /-- Something stands where it cannot stand. -/
  | malformed
  /-- A value is well formed and not what was asked for. -/
  | mistyped
deriving DecidableEq

/-- A reader of characters. -/
abbrev CharReader := Reader Char Flaw

/-- The flaw of finding something else than what has to be here. -/
def misfit : List Char → Flaw
  | [] => .ended
  | _ :: _ => .malformed

/-! ## Room and words -/

/-- Whether a character may stand between the parts of a document. -/
def isRoom (c : Char) : Bool :=
  c == ' ' || c == '\t' || c == '\n' || c == '\r'

/-- A text without the room in front of it. -/
def skipRoom (cs : List Char) : List Char :=
  cs.dropWhile isRoom

theorem length_skipRoom_le (cs : List Char) : (skipRoom cs).length ≤ cs.length :=
  (List.dropWhile_suffix isRoom).length_le

/-- Takes a word off, character by character. -/
def readWord : List Char → List Char → Except Flaw (List Char)
  | [], cs => .ok cs
  | _ :: _, [] => .error .ended
  | w :: word, c :: cs => if c = w then readWord word cs else .error .malformed

@[grind →]
theorem length_of_readWord {word cs rest : List Char} (h : readWord word cs = .ok rest) :
    rest.length + word.length = cs.length := by
  fun_induction readWord word cs <;> grind

/-! ## Strings -/

/-- The number that a hexadecimal digit stands for, be it a small letter or a capital. -/
def hexDigit? (c : Char) : Option Nat :=
  if '0' ≤ c ∧ c ≤ '9' then some (c.toNat - '0'.toNat)
  else if 'a' ≤ c ∧ c ≤ 'f' then some (c.toNat - 'a'.toNat + 10)
  else if 'A' ≤ c ∧ c ≤ 'F' then some (c.toNat - 'A'.toNat + 10)
  else none

/-- The number that four hexadecimal digits spell. -/
def hexNumber? (a b c d : Char) : Option Nat := do
  return ((← hexDigit? a) * 16 + (← hexDigit? b)) * 256 + (← hexDigit? c) * 16 + (← hexDigit? d)

/-- Reads four hexadecimal digits. The text has ended too early if it has not four bytes more. -/
def readHex (cs : List Char) : Except Flaw (Nat × List Char) :=
  match cs with
  | a :: b :: c :: d :: rest =>
    match hexNumber? a b c d with
    | some n => .ok (n, rest)
    | none => .error .malformed
  | cs => .error (if byteLength cs < 4 then .ended else .malformed)

/-- Whether `n` is the first of two numbers that spell a character beyond U+FFFF. -/
def isHighSurrogate (n : Nat) : Bool := 0xD800 ≤ n && n ≤ 0xDBFF

/-- Whether `n` is the second of two numbers that spell a character beyond U+FFFF. -/
def isLowSurrogate (n : Nat) : Bool := 0xDC00 ≤ n && n ≤ 0xDFFF

/-- The character that two surrogates stand for. -/
def ofSurrogates (high low : Nat) : Char :=
  Char.ofNat (0x10000 + (high - 0xD800) * 0x400 + (low - 0xDC00))

/-- Reads the character that is written as `\u` and four digits, or as two such groups. -/
def readUnicode (cs : List Char) : Except Flaw (Char × List Char) :=
  match readHex cs with
  | .error flaw => .error flaw
  | .ok (n, rest) =>
    if isLowSurrogate n then .error .malformed
    else if isHighSurrogate n then
      match readWord ['\\', 'u'] rest with
      | .error flaw => .error flaw
      | .ok rest =>
        match readHex rest with
        | .error flaw => .error flaw
        | .ok (low, rest) =>
          if isLowSurrogate low then .ok (ofSurrogates n low, rest) else .error .malformed
    else .ok (Char.ofNat n, rest)

/-- The character that a single character behind a backslash stands for. -/
def unescape? : Char → Option Char
  | '"' => some '"'
  | '\\' => some '\\'
  | '/' => some '/'
  | 'b' => some '\x08'
  | 'f' => some '\x0c'
  | 'n' => some '\n'
  | 'r' => some '\r'
  | 't' => some '\t'
  | _ => none

/-- Reads what follows a backslash. -/
def readEscape : List Char → Except Flaw (Char × List Char)
  | [] => .error .ended
  | 'u' :: rest => readUnicode rest
  | c :: rest =>
    match unescape? c with
    | some d => .ok (d, rest)
    | none => .error .malformed

@[grind →]
theorem length_of_readHex {cs rest : List Char} {n : Nat} (h : readHex cs = .ok (n, rest)) :
    rest.length < cs.length := by
  fun_cases readHex cs <;> grind [readHex]

@[grind →]
theorem length_of_readUnicode {cs rest : List Char} {c : Char}
    (h : readUnicode cs = .ok (c, rest)) : rest.length < cs.length := by
  fun_cases readUnicode cs <;> grind [readUnicode]

@[grind →]
theorem length_of_readEscape {cs rest : List Char} {c : Char}
    (h : readEscape cs = .ok (c, rest)) : rest.length < cs.length := by
  fun_cases readEscape cs <;> grind [readEscape]

/-- Reads the characters of a string behind its opening quote, and the closing one. -/
def readChars (cs : List Char) : Except Flaw (List Char × List Char) :=
  match cs with
  | [] => .error .ended
  | '"' :: rest => .ok ([], rest)
  | '\\' :: rest =>
    match h : readEscape rest with
    | .error flaw => .error flaw
    | .ok (c, rest') =>
      have := length_of_readEscape h
      match readChars rest' with
      | .error flaw => .error flaw
      | .ok (text, rest) => .ok (c :: text, rest)
  | c :: rest =>
    if c.toNat < 0x20 then .error .malformed
    else
      match readChars rest with
      | .error flaw => .error flaw
      | .ok (text, rest) => .ok (c :: text, rest)
termination_by cs.length
decreasing_by all_goals grind

@[grind →]
theorem length_of_readChars {cs text rest : List Char} (h : readChars cs = .ok (text, rest)) :
    rest.length < cs.length := by
  fun_induction readChars cs generalizing text <;> grind

/-! ## Numbers -/

/-- Reads digits, of which there has to be one. -/
def readDigits (cs : List Char) : Except Flaw (List Char × List Char) :=
  match cs.takeWhile Char.isDigit with
  | [] => .error (misfit cs)
  | d :: digits => .ok (d :: digits, cs.dropWhile Char.isDigit)

/-- Reads the digits before the point. A leading zero stands alone. -/
def readInteger (cs : List Char) : Except Flaw (List Char × List Char) :=
  match readDigits cs with
  | .ok ('0' :: _ :: _, _) => .error .malformed
  | result => result

/-- Reads the point and the digits behind it, if there is a point. -/
def readFraction : List Char → Except Flaw (List Char × List Char)
  | '.' :: rest => readDigits rest
  | cs => .ok ([], cs)

/-- Takes a sign off and says whether it was the minus sign. -/
def takeSign : List Char → Bool × List Char
  | '-' :: rest => (true, rest)
  | '+' :: rest => (false, rest)
  | cs => (false, cs)

/-- Reads the exponent, if there is one. -/
def readExponent : List Char → Except Flaw (Option (Bool × List Char) × List Char)
  | [] => .ok (none, [])
  | c :: rest =>
    if c = 'e' || c = 'E' then
      let (negative, rest) := takeSign rest
      match readDigits rest with
      | .error flaw => .error flaw
      | .ok (digits, rest) => .ok (some (negative, digits), rest)
    else .ok (none, c :: rest)

/-- Takes a minus sign off. -/
def takeMinus : List Char → Bool × List Char
  | '-' :: rest => (true, rest)
  | cs => (false, cs)

/-- Reads a numeral. -/
def readNumeral (cs : List Char) : Except Flaw (Numeral × List Char) :=
  let (negative, cs) := takeMinus cs
  match readInteger cs with
  | .error flaw => .error flaw
  | .ok (whole, cs) =>
    match readFraction cs with
    | .error flaw => .error flaw
    | .ok (fraction, cs) =>
      match readExponent cs with
      | .error flaw => .error flaw
      | .ok (exponent, cs) => .ok (⟨negative, whole, fraction, exponent⟩, cs)

/-- The value of a numeral that is in range. -/
def ofNumeral (n : Numeral) : Except Flaw Json :=
  if n.fits then
    match n.natural? with
    | some value => .ok (natural value)
    | none => .ok (decimal (String.ofList n.chars))
  else .error .malformed

@[grind →]
theorem length_of_readDigits {cs digits rest : List Char}
    (h : readDigits cs = .ok (digits, rest)) : rest.length < cs.length := by
  have := congrArg List.length (List.takeWhile_append_dropWhile (p := Char.isDigit) (l := cs))
  fun_cases readDigits cs <;> grind [readDigits]

@[grind →]
theorem length_of_readInteger {cs digits rest : List Char}
    (h : readInteger cs = .ok (digits, rest)) : rest.length < cs.length := by
  fun_cases readInteger cs <;> grind [readInteger]

@[grind →]
theorem length_of_readFraction {cs digits rest : List Char}
    (h : readFraction cs = .ok (digits, rest)) : rest.length ≤ cs.length := by
  fun_cases readFraction cs <;> grind [readFraction]

theorem length_takeSign_le (cs : List Char) : (takeSign cs).2.length ≤ cs.length := by
  fun_cases takeSign cs <;> simp

@[grind →]
theorem length_of_readExponent {cs rest : List Char} {exponent : Option (Bool × List Char)}
    (h : readExponent cs = .ok (exponent, rest)) : rest.length ≤ cs.length := by
  fun_cases readExponent cs <;> grind [readExponent, length_takeSign_le]

theorem length_takeMinus_le (cs : List Char) : (takeMinus cs).2.length ≤ cs.length := by
  fun_cases takeMinus cs <;> simp

@[grind →]
theorem length_of_readNumeral {cs rest : List Char} {n : Numeral}
    (h : readNumeral cs = .ok (n, rest)) : rest.length < cs.length := by
  fun_cases readNumeral cs <;> grind [readNumeral, length_takeMinus_le]

/-! ## Values without parts -/

/-- Reads a word that stands for a value. -/
def readLiteral (word : List Char) (value : Json) (cs : List Char) :
    Except Flaw (Json × List Char) :=
  match readWord word cs with
  | .error flaw => .error flaw
  | .ok rest => .ok (value, rest)

/-- Reads a value that is neither an array nor an object. -/
def readScalar : List Char → Except Flaw (Json × List Char)
  | [] => .error .ended
  | 'n' :: rest => readLiteral ['u', 'l', 'l'] null rest
  | 't' :: rest => readLiteral ['r', 'u', 'e'] (bool true) rest
  | 'f' :: rest => readLiteral ['a', 'l', 's', 'e'] (bool false) rest
  | '"' :: rest =>
    match readChars rest with
    | .error flaw => .error flaw
    | .ok (text, rest) => .ok (string (String.ofList text), rest)
  | c :: rest =>
    if c = '-' || c.isDigit then
      match readNumeral (c :: rest) with
      | .error flaw => .error flaw
      | .ok (n, rest) =>
        match ofNumeral n with
        | .error flaw => .error flaw
        | .ok value => .ok (value, rest)
    else .error .malformed

/-- The flaw of a value that is not of the type asked for. A value without parts is read first, and
    its own flaws come before that of its type. -/
def otherType : List Char → Flaw
  | '[' :: _ => .mistyped
  | '{' :: _ => .mistyped
  | cs =>
    match readScalar cs with
    | .error flaw => flaw
    | .ok _ => .mistyped

@[grind →]
theorem length_of_readLiteral {word cs rest : List Char} {value value' : Json}
    (h : readLiteral word value cs = .ok (value', rest)) : rest.length ≤ cs.length := by
  fun_cases readLiteral word value cs <;> grind [readLiteral]

@[grind →]
theorem length_of_readScalar {cs rest : List Char} {value : Json}
    (h : readScalar cs = .ok (value, rest)) : rest.length < cs.length := by
  fun_cases readScalar cs <;> grind [readScalar]

end TypeNotation.Json
