import TypeNotation.Parser
import TypeNotation.TypeExpr.Encode
import TypeNotation.TypeExpr.Text

set_option autoImplicit false

/-! # Reading specifications at a prompt

At the prompt each line is a command or a specification. The prompt counts the specifications; it
also keeps whether type expressions are shown as JSON. Nothing else is kept from line to line. -/

namespace TypeNotation

/-! ## What a program writes -/

/-- What a program writes. What was asked for goes to the standard output, and what went wrong to
    the standard error. -/
structure Output where
  stdout : String
  stderr : String

namespace Output

/-- Nothing is written. -/
def empty : Output :=
  ⟨"", ""⟩

/-- `text` is written to the standard output only. -/
def out (text : String) : Output :=
  ⟨text, ""⟩

/-- `text` is written to the standard error only. -/
def err (text : String) : Output :=
  ⟨"", text⟩

/-- One output after the other, at each of the two places. -/
instance : Append Output where
  append a b := ⟨a.stdout ++ b.stdout, a.stderr ++ b.stderr⟩

end Output

/-! ## Requests -/

/-- What a line asks for. -/
inductive Request where
  | quit
  | help
  | toggleJson
  | nothing
  | spec (text : String)
deriving DecidableEq

/-- What a line asks for, whatever spaces stand around it. -/
def Request.ofLine (line : List Char) : Request :=
  match String.ofList (trim line) with
  | ":quit" | ":q" => .quit
  | ":help" | ":h" => .help
  | ":json" | ":j" => .toggleJson
  | "" => .nothing
  | text => .spec text

/-! ## The prompt -/

/-- The number of the next specification, and whether JSON is shown. The number has 32 bits, and
    behind `2147483647` comes `-2147483648`. A program that checks its sums for overflow ends there
    instead: the two are the same until that many specifications have been answered. -/
structure Prompt where
  number : Int32
  json : Bool

namespace Prompt

/-- The prompt before any line: the first specification comes next, and JSON is not shown. -/
def start : Prompt :=
  ⟨1, false⟩

/-- What is written before the first prompt. -/
def greeting : String :=
  "Type Specification REPL\nType ':quit' or ':q' to exit, ':help' for help\n\n"

/-- The answer to a request for help. -/
def helpText : String :=
  "REPL commands:\n" ++
  "  :quit, :q    Exit the REPL\n" ++
  "  :help, :h    Show this help message\n" ++
  "  :json, :j    Toggle JSON output\n" ++
  "\nEnter a type specification to parse it.\n"

/-- `n` in decimal, with zeros in front up to three characters. The sign of a negative number is one
    of the characters and stands before the zeros. -/
def threeDigits (n : Int32) : String :=
  let sign := if n < 0 then ['-'] else []
  let digits := Nat.toDigits 10 n.toInt.natAbs
  String.ofList (sign ++ (List.replicate (3 - (sign.length + digits.length)) '0' ++ digits))

/-- What is written before a line is read. -/
def text (p : Prompt) : String :=
  s!"typespec:{threeDigits p.number}> "

/-- How a type expression is shown. -/
def present (p : Prompt) (of : TypeExpr) : String :=
  if p.json then of.toJson.compact else of.text

/-- The answer to a specification. -/
def answer (p : Prompt) (spec : String) : Output :=
  match TypeExpr.parse spec with
  | .ok (of, _) => .out s!"result: {p.present of}\n"
  | .error refusal => .err s!"error: {refusal.message}\n"

/-- The answer to a request, and the prompt that follows unless it was the last one. -/
def respond (p : Prompt) : Request → Output × Option Prompt
  | .quit => (.out "Goodbye!\n", none)
  | .help => (.out helpText, some p)
  | .toggleJson =>
    (.out (if p.json then "JSON output off\n" else "JSON output on\n"),
      some { p with json := !p.json })
  | .nothing => (.empty, some p)
  | .spec spec => (p.answer spec, some { p with number := p.number + 1 })

/-- What is written while some lines are read, up to the request to quit or the end. -/
def converse (p : Prompt) : List (List Char) → Output
  | [] => .out (p.text ++ "\n")
  | line :: rest =>
    let (reply, next) := p.respond (Request.ofLine line)
    .out p.text ++ reply ++
      match next with
      | none => .empty
      | some p' => p'.converse rest

/-- The lines that are read from an input: behind its last line feed there is none unless something
    stands there. -/
def inputLines (input : String) : List (List Char) :=
  let all := lines input.toList
  if all.getLast? = some [] then all.dropLast else all

/-- All that is written in answer to an input. -/
def transcript (input : String) : Output :=
  .out greeting ++ start.converse (inputLines input)

end Prompt

end TypeNotation
