import TypeNotation.Basic
import TypeNotation.Text.Category
import TypeNotation.Token

set_option autoImplicit false

/-! # Lexemes

A lexeme is a token together with the place where it stands. `lexemes` cuts a whole text; a
`Scanner` gives out one lexeme at a time and remembers how far it has come. Between two lexemes
only blanks are passed over, and a lexeme is always the longest token that begins where it
stands. `dump` lists lexemes for a reader. -/

namespace TypeNotation

/-- A token where it stands. -/
structure Lexeme where
  token : Token
  span : Span
deriving DecidableEq

/-- What is left to cut of a text, and the offset at which it begins. -/
structure Scanner where
  offset : Nat
  rest : List Char

namespace Scanner

/-- A scanner in front of the whole text. -/
def ofString (text : String) : Scanner :=
  ⟨0, text.toList⟩

/-- The next lexeme, and the scanner behind it. -/
def next? (s : Scanner) : Option (Lexeme × Scanner) :=
  let start := s.offset + byteLength (s.rest.takeWhile isBlank)
  match Token.first? (s.rest.dropWhile isBlank) with
  | none => none
  | some (token, rest) =>
    let stop := start + byteLength token.text.toList
    some (⟨token, start, stop⟩, ⟨stop, rest⟩)

/-- A scanner moves forward. -/
theorem length_rest_lt_of_next? {s s' : Scanner} {lexeme : Lexeme}
    (h : s.next? = some (lexeme, s')) : s'.rest.length < s.rest.length := by
  unfold next? at h
  split at h
  · simp at h
  · next first =>
    cases h
    exact Nat.lt_of_lt_of_le (Token.length_lt_of_first? first)
      (List.dropWhile_suffix isBlank).length_le

/-- The lexemes that a scanner still gives out. -/
def toList (s : Scanner) : List Lexeme :=
  match h : s.next? with
  | none => []
  | some (lexeme, s') =>
    have := length_rest_lt_of_next? h
    lexeme :: s'.toList
termination_by s.rest.length

end Scanner

/-- The lexemes of a text, from left to right. -/
def lexemes (text : String) : List Lexeme :=
  (Scanner.ofString text).toList

/-- The spellings of some lexemes. -/
def spellings (ls : List Lexeme) : List String :=
  ls.map (·.token.text)

/-! ## A readable list of lexemes

One line for each lexeme: what kind of token it is, with the text of the kinds that have one, and
the offsets between which it stands. The text is quoted, so a line never breaks. -/

/-- The kind of a token, with its text where the kind leaves it open. -/
def Token.describe : Token → String
  | ellipsis => "Ellipsis"
  | doubleColon => "DoubleColon"
  | arrow => "Arrow"
  | identifier text => s!"Identifier({quoted text})"
  | leftBracket => "LeftBracket"
  | rightBracket => "RightBracket"
  | leftParen => "LeftParen"
  | rightParen => "RightParen"
  | leftBrace => "LeftBrace"
  | rightBrace => "RightBrace"
  | comma => "Comma"
  | colon => "Colon"
  | pipe => "Pipe"
  | star => "Star"
  | other text => s!"Other({quoted text})"

/-- A lexeme on one line. -/
def Lexeme.describe (l : Lexeme) : String :=
  s!"{l.token.describe} @ {l.span.start}..{l.span.stop}"

/-- Some lexemes, one to a line. -/
def dump (ls : List Lexeme) : String :=
  "\n".intercalate (ls.map Lexeme.describe)

end TypeNotation
