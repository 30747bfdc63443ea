set_option autoImplicit false

/-! # Tokens

The words and signs that a type specification is made of. A token knows its own spelling; where it
stands in a text is kept apart from it. -/

namespace TypeNotation

/-- One word or sign of a specification. -/
inductive Token where
  /-- The sign `...`, which opens a record to further keys. -/
  | ellipsis
  /-- The sign `::`, which ends a label. -/
  | doubleColon
  /-- The sign `->`, which no specification may contain. -/
  | arrow
  /-- A run of letters, digits, `$` and `_`. -/
  | identifier (text : String)
  | leftBracket
  | rightBracket
  | leftParen
  | rightParen
  | leftBrace
  | rightBrace
  | comma
  | colon
  | pipe
  /-- The sign `*`, the name that stands for every type. -/
  | star
  /-- A character that has no meaning in a specification. -/
  | other (text : String)
deriving DecidableEq

namespace Token

/-- How a token is written. -/
def text : Token → String
  | ellipsis => "..."
  | doubleColon => "::"
  | arrow => "->"
  | identifier text => text
  | leftBracket => "["
  | rightBracket => "]"
  | leftParen => "("
  | rightParen => ")"
  | leftBrace => "\x7b"
  | rightBrace => "\x7d"
  | comma => ","
  | colon => ":"
  | pipe => "|"
  | star => "*"
  | other text => text

/-- The characters that words are made of. -/
def isWordChar (c : Char) : Bool :=
  c.isAlphanum || c == '_' || c == '$'

/-- The token that a single character makes when no longer one begins with it. -/
def ofChar (c : Char) : Token :=
  match c with
  | '[' => leftBracket
  | ']' => rightBracket
  | '(' => leftParen
  | ')' => rightParen
  | '{' => leftBrace
  | '}' => rightBrace
  | ',' => comma
  | ':' => colon
  | '|' => pipe
  | '*' => star
  | c => other (String.singleton c)

/-- The longest token at the front of a text, and what follows it. -/
def first? : List Char → Option (Token × List Char)
  | [] => none
  | '.' :: '.' :: '.' :: rest => some (ellipsis, rest)
  | ':' :: ':' :: rest => some (doubleColon, rest)
  | '-' :: '>' :: rest => some (arrow, rest)
  | c :: rest =>
    if isWordChar c then
      some (identifier (String.ofList (c :: rest.takeWhile isWordChar)),
        rest.dropWhile isWordChar)
    else
      some (ofChar c, rest)

/-- Whether a token begins an array, a tuple or a record. -/
def opens : Token → Bool
  | leftBracket | leftParen | leftBrace => true
  | _ => false

/-! ## A token is taken from the front -/

theorem text_ofChar (c : Char) : (ofChar c).text = String.singleton c := by
  unfold ofChar
  split <;> rfl

/-- What is read off and what is left make up the text. -/
theorem text_append_of_first? {cs rest : List Char} {token : Token}
    (h : first? cs = some (token, rest)) : token.text.toList ++ rest = cs := by
  unfold first? at h
  split at h
  · simp at h
  · cases h; rfl
  · cases h; rfl
  · cases h; rfl
  · split at h
    · cases h; simp [text]
    · cases h; simp [text_ofChar]

theorem text_ne_empty_of_first? {cs rest : List Char} {token : Token}
    (h : first? cs = some (token, rest)) : token.text.toList ≠ [] := by
  unfold first? at h
  split at h
  · simp at h
  · cases h; simp [text]
  · cases h; simp [text]
  · cases h; simp [text]
  · split at h
    · cases h; simp [text]
    · cases h; simp [text_ofChar]

/-- Reading a token shortens the text. -/
theorem length_lt_of_first? {cs rest : List Char} {token : Token}
    (h : first? cs = some (token, rest)) : rest.length < cs.length := by
  have hpos := List.length_pos_iff.2 (text_ne_empty_of_first? h)
  rw [← text_append_of_first? h, List.length_append]
  omega

end Token

end TypeNotation
