set_option autoImplicit false

/-! # Texts and readers

What everything else is built on. A text is a list of characters: it has lines, some of its
characters are empty room, and a `Span` is a place in it, counted in the bytes of its UTF-8 form. A
`Reader` takes something off the front of a list of symbols, be they characters or tokens. -/

namespace TypeNotation

/-! ## Blanks and spaces

Two sets of characters count as empty room. *Spaces* are the characters with the Unicode property
White_Space; they are trimmed from both ends of a line. *Blanks* stand between the tokens of a
specification. The sets differ in two characters: the next-line control is a space but no blank,
and the byte order mark is a blank but no space. -/

/-- The characters with the Unicode property White_Space. -/
def isSpace (c : Char) : Bool :=
  ('\t' ≤ c && c ≤ '\r') || c == ' ' || c == '\u0085' || c == '\u00A0' || c == '\u1680' ||
  ('\u2000' ≤ c && c ≤ '\u200A') || c == '\u2028' || c == '\u2029' || c == '\u202F' ||
  c == '\u205F' || c == '\u3000'

/-- A blank stands between tokens and is part of none. -/
def isBlank (c : Char) : Bool :=
  c == '\uFEFF' || (isSpace c && c != '\u0085')

/-- Drops the spaces at both ends. -/
def trim (cs : List Char) : List Char :=
  ((cs.dropWhile isSpace).reverse.dropWhile isSpace).reverse

/-! ## Lines

A line ends in front of each line feed, and the last line at the end of the text. So a text has one
line more than it has line feeds. -/

/-- The lines of a text, without the line feeds between them. -/
def lines : List Char → List (List Char)
  | [] => [[]]
  | c :: cs =>
    if c = '\n' then [] :: lines cs
    else
      match lines cs with
      | [] => [[c]]
      | line :: rest => (c :: line) :: rest

theorem lines_ne_nil (cs : List Char) : lines cs ≠ [] := by
  induction cs with
  | nil => simp [lines]
  | cons c cs ih => grind [lines]

/-! ## Places

A place is a range of bytes of the UTF-8 form of a text: the offset of its first byte and the
offset behind its last one. Nothing keeps `start` below `stop`; whoever builds a span sees to
that. -/

/-- The bytes from `start` up to, and without, `stop`. -/
structure Span where
  start : Nat
  stop : Nat
deriving DecidableEq

/-- The empty place at one offset. -/
def Span.point (offset : Nat) : Span :=
  ⟨offset, offset⟩

/-- The number of bytes that the UTF-8 form of `cs` takes. -/
def byteLength : List Char → Nat
  | [] => 0
  | c :: cs => c.utf8Size + byteLength cs

@[simp]
theorem byteLength_append (cs ds : List Char) :
    byteLength (cs ++ ds) = byteLength cs + byteLength ds := by
  induction cs with
  | nil => simp [byteLength]
  | cons c cs ih => simp only [List.cons_append, byteLength, ih]; omega

/-! ## Readers

A reader never succeeds without taking at least one symbol, so that reading again and again what is
left comes to an end. -/

/-- Reads an `α` off the front of a list of `σ`, or says with an `ε` why there is none. -/
structure Reader (σ ε α : Type) where
  read : List σ → Except ε (α × List σ)
  shortens : ∀ {input rest : List σ} {a : α},
    read input = .ok (a, rest) → rest.length < input.length

attribute [grind →] Reader.shortens

namespace Reader

variable {σ ε α β : Type}

/-- Makes something of what is read. -/
def map (f : α → β) (r : Reader σ ε α) : Reader σ ε β where
  read input :=
    match r.read input with
    | .error e => .error e
    | .ok (a, rest) => .ok (f a, rest)
  shortens h := by grind

end Reader

end TypeNotation
