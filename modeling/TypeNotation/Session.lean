import TypeNotation.Diagnostic.Render
import TypeNotation.Parser

set_option autoImplicit false

/-! # Checking a file of specifications

A file holds a specification on each line; empty lines and lines that begin with `#` hold none. A
`Session` checks them all, each apart from the others: every specification becomes a file of its
own, named after its line, and what is found in it points into that file. -/

namespace TypeNotation

/-- A specification and the number of its line. -/
structure SpecLine where
  number : Nat
  text : String
deriving DecidableEq

/-- A specification that can be read, with its type expression. -/
structure Checked where
  line : SpecLine
  value : TypeExpr

namespace SpecLine

/-- Whether a line that is trimmed holds a specification. -/
def holdsSpec (line : List Char) : Bool :=
  match line with
  | [] => false
  | c :: _ => c != '#'

/-- The specifications of a text, of whose lines the first has the given number. -/
def ofLines (number : Nat) : List (List Char) → List SpecLine
  | [] => []
  | line :: rest =>
    let trimmed := trim line
    if holdsSpec trimmed then ⟨number, String.ofList trimmed⟩ :: ofLines (number + 1) rest
    else ofLines (number + 1) rest

/-- The specifications of a whole text, whose lines are counted from one. -/
def ofText (text : String) : List SpecLine :=
  ofLines 1 (lines text.toList)

end SpecLine

/-- The warning that lexemes behind a type expression are worth, if there are any. -/
def trailingIssue? (rest : List Lexeme) : Option Issue := do
  let first ← rest.head?
  let last ← rest.getLast?
  return .trailing (spellings rest) ⟨first.span.start, last.span.stop⟩

/-- A specification, the number of its file and what reading it comes to. -/
structure Verdict where
  line : SpecLine
  file : Nat
  result : Except Refusal (TypeExpr × List Lexeme)

namespace Verdict

/-- What reading a specification comes to, filed under `file`. -/
def ofLine (line : SpecLine) (file : Nat) : Verdict :=
  ⟨line, file, TypeExpr.parse line.text⟩

/-- The specification with its type expression, if it can be read. -/
def checked? (v : Verdict) : Option Checked :=
  match v.result with
  | .ok (value, _) => some ⟨v.line, value⟩
  | .error _ => none

/-- The refusal of the specification, if it cannot be read. -/
def error? (v : Verdict) : Option Finding :=
  match v.result with
  | .ok _ => none
  | .error refusal => some ⟨.refused refusal, v.file⟩

/-- The warning of `trailingIssue?`, if the specification can be read and there are tokens behind
    it. -/
def warning? (v : Verdict) : Option Finding :=
  match v.result with
  | .ok (_, rest) => (trailingIssue? rest).map (⟨·, v.file⟩)
  | .error _ => none

end Verdict

/-- What stands at a path. -/
inductive Entry where
  | missing
  | directory
  | file (content : ByteArray)

/-- A file that is checked, with what the last check brought up. -/
structure Session where
  name : String
  source : String
  files : List SourceFile
  report : Report

namespace Session

/-- A session on a text of which nothing is known yet. -/
def ofSource (name source : String) : Session :=
  ⟨name, source, [], .empty⟩

/-- A session on what stands at a path. -/
def ofEntry (path : String) : Entry → Except Issue Session
  | .missing => .error (.unreadable path "No such file or directory (os error 2)")
  | .directory => .error (.unreadable path "Is a directory (os error 21)")
  | .file content =>
    match String.fromUTF8? content with
    | some source => .ok (ofSource path source)
    | none => .error (.unreadable path "stream did not contain valid UTF-8")

/-- The specifications of the text of a session. -/
def specs (s : Session) : List SpecLine :=
  SpecLine.ofText s.source

/-- The file that a specification becomes. -/
def fileOf (s : Session) (line : SpecLine) : SourceFile :=
  ⟨s!"{s.name}:{line.number}", line.text⟩

/-- Checks all specifications anew. -/
def run (s : Session) : List Checked × Session :=
  let verdicts := s.specs.mapIdx fun file line => Verdict.ofLine line file
  (verdicts.filterMap Verdict.checked?,
    { s with
      files := s.specs.map s.fileOf
      report := ⟨verdicts.filterMap Verdict.error?, verdicts.filterMap Verdict.warning?⟩ })

/-- The findings as text. If one of them points into a file that is not there, the text ends in
    front of it and the issue is given as well. -/
def emit (s : Session) : String × Option Issue :=
  let (text, stuck) := renderFindings s.files s.report.findings
  (text, if stuck then some (.unreadable s.name "Failed to emit diagnostic: file missing")
    else none)

end Session

end TypeNotation
