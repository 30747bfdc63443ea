set_option autoImplicit false

/-! # JSON values and how they are written

A JSON document as a value. An object keeps all its members in the order they were written, also
those that repeat a key: what a repeated key means is for the reader of the value to say. A number
is kept as a natural number if it is written as one and is below 2^64, and by its spelling
otherwise.

`Json.compact` writes a value without any room in it, `Json.pretty` on lines of their own with two
spaces for each level. Both escape in a string only what has to be: the quote, the backslash and
the characters below the space. -/

namespace TypeNotation

/-- A JSON value. -/
inductive Json where
  | null
  | bool (value : Bool)
  | natural (value : Nat)
  /-- A number that is not a small natural number, as it is spelt. -/
  | decimal (spelling : String)
  | string (value : String)
  | array (items : List Json)
  | object (members : List (String × Json))

namespace Json

/-- A list of texts as an array. -/
def ofStrings (texts : List String) : Json :=
  array (texts.map string)

/-! ## Strings and scalars -/

/-- A character as it stands inside a string. -/
def escape (c : Char) : List Char :=
  match c with
  | '"' => ['\\', '"']
  | '\\' => ['\\', '\\']
  | '\x08' => ['\\', 'b']
  | '\t' => ['\\', 't']
  | '\n' => ['\\', 'n']
  | '\x0c' => ['\\', 'f']
  | '\r' => ['\\', 'r']
  | c =>
    if c.toNat < 0x20 then
      ['\\', 'u', '0', '0', Nat.digitChar (c.toNat / 16), Nat.digitChar (c.toNat % 16)]
    else [c]

/-- A string between its quotes. -/
def stringChars (s : String) : List Char :=
  '"' :: s.toList.flatMap escape ++ ['"']

/-- The values that have no parts. -/
def scalarChars : Json → List Char
  | null => "null".toList
  | bool true => "true".toList
  | bool false => "false".toList
  | natural n => Nat.toDigits 10 n
  | decimal spelling => spelling.toList
  | string s => stringChars s
  | array _ | object _ => []

/-! ## Without room -/

mutual

/-- The characters of `compact`. -/
def compactChars : Json → List Char
  | array items => '[' :: compactItems items ++ [']']
  | object members => '{' :: compactMembers members ++ ['}']
  | value => scalarChars value

/-- The items of an array with commas between them. -/
def compactItems : List Json → List Char
  | [] => []
  | [item] => item.compactChars
  | item :: rest => item.compactChars ++ ',' :: compactItems rest

/-- The members of an object with commas between them, each with a colon behind its key. -/
def compactMembers : List (String × Json) → List Char
  | [] => []
  | [(key, value)] => stringChars key ++ ':' :: value.compactChars
  | (key, value) :: rest =>
    stringChars key ++ ':' :: value.compactChars ++ ',' :: compactMembers rest

end

/-- The shortest text of a value. -/
def compact (value : Json) : String :=
  String.ofList value.compactChars

/-! ## On lines -/

/-- A new line at some level. -/
def newline (level : Nat) : List Char :=
  '\n' :: List.replicate (2 * level) ' '

mutual

/-- A value whose lines after the first stand at `level`. -/
def prettyChars (level : Nat) : Json → List Char
  | array [] => ['[', ']']
  | array (item :: rest) =>
    '[' :: newline (level + 1) ++ item.prettyChars (level + 1) ++ prettyItems (level + 1) rest ++
      newline level ++ [']']
  | object [] => ['{', '}']
  | object ((key, value) :: rest) =>
    '{' :: newline (level + 1) ++ stringChars key ++ [':', ' '] ++
      value.prettyChars (level + 1) ++ prettyMembers (level + 1) rest ++ newline level ++ ['}']
  | value => scalarChars value

/-- The items after the first. -/
def prettyItems (level : Nat) : List Json → List Char
  | [] => []
  | item :: rest =>
    ',' :: newline level ++ item.prettyChars level ++ prettyItems level rest

/-- The members after the first. -/
def prettyMembers (level : Nat) : List (String × Json) → List Char
  | [] => []
  | (key, value) :: rest =>
    ',' :: newline level ++ stringChars key ++ [':', ' '] ++ value.prettyChars level ++
      prettyMembers level rest

end

/-- The text of a value on lines, one for each item and member. -/
def pretty (value : Json) : String :=
  String.ofList (value.prettyChars 0)

end Json

end TypeNotation
