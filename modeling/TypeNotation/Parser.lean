import TypeNotation.Grammar.Read
import TypeNotation.Lexeme

set_option autoImplicit false

/-! # Reading type expressions

A `Parser` reads one type expression after the other off a list of lexemes and can go on after a
fault. The grammar is a matter of tokens alone; a parser finds out where in the text a cause
belongs. `TypeExpr.parse` reads a whole text and also gives the lexemes behind the type
expression. -/

namespace TypeNotation

/-- How many shapes may be open inside one another. -/
def nestingLimit : Nat := 128

/-- The lexemes not yet read, and the offset behind the last lexeme of them all. -/
structure Parser where
  rest : List Lexeme
  stop : Nat

namespace Parser

/-- The offset behind the last lexeme. -/
def stopOf (ls : List Lexeme) : Nat :=
  (ls.getLast?.map (·.span.stop)).getD 0

/-- A parser in front of some lexemes. -/
def ofLexemes (ls : List Lexeme) : Parser :=
  ⟨ls, stopOf ls⟩

/-- The place of the next lexeme, which is the empty place at the end when there is none. -/
def place (p : Parser) : Span :=
  match p.rest with
  | l :: _ => l.span
  | [] => .point p.stop

/-- Where the last of some lexemes begins, if there is one. -/
def lastStart? (ls : List Lexeme) : Option Nat :=
  ls.getLast?.map (·.span.start)

/-- Where a cause belongs when reading stopped in front of `p` and the lexemes `front` had been
    read. An empty array or tuple is blamed with both of its brackets, anything else at the lexeme
    where reading stopped. -/
def blame (p : Parser) (front : List Lexeme) : Cause → Span
  | .emptyArray | .emptyTuple => ⟨(lastStart? front).getD p.place.start, p.place.stop⟩
  | _ => p.place

/-- Splits the lexemes of a parser in front of the last `n`. -/
def splitLast (p : Parser) (n : Nat) : List Lexeme × Parser :=
  (p.rest.take (p.rest.length - n), { p with rest := p.rest.drop (p.rest.length - n) })

/-- Reads the next type expression, and gives the parser behind it or at the fault. -/
def parse (p : Parser) : Except Fault TypeExpr × Parser :=
  match Grammar.read nestingLimit (p.rest.map (·.token)) with
  | .ok (tree, rest) => (.ok tree.value, (p.splitLast rest.length).2)
  | .error stop =>
    let (front, p') := p.splitLast stop.rest.length
    (.error (.at (p'.blame front stop.cause) stop.cause), p')

end Parser

/-- The type expression that a text begins with, and the lexemes behind it. -/
def TypeExpr.parse (text : String) : Except Refusal (TypeExpr × List Lexeme) :=
  if text.isEmpty then .error (.rejected .emptyInput)
  else
    let ls := lexemes text
    match ls.find? (·.token = .arrow) with
    | some arrow => .error (.rejected (.at arrow.span .functionType))
    | none =>
      match (Parser.ofLexemes ls).parse with
      | (.ok of, p) => .ok (of, p.rest)
      | (.error fault, p) => .error (.stopped fault (spellings p.rest) text)

end TypeNotation
