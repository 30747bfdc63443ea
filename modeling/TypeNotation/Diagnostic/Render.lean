import TypeNotation.Diagnostic
import TypeNotation.Text.Width

set_option autoImplicit false

/-! # Showing diagnostics

A diagnostic is shown with the line that its label points at: the line with its number, below it
carets under the labelled characters and the label's message, and at the end the notes. All of it
hangs on a gutter that is as wide as the line number. A label is shown in the line in which it
begins. -/

namespace TypeNotation

/-- A file that diagnostics can point at. -/
structure SourceFile where
  name : String
  text : String

/-! ## Lines -/

/-- A line of a file, with its number and the offset of its first byte. -/
structure SourceLine where
  number : Nat
  start : Nat
  chars : List Char

namespace SourceLine

/-- Numbers some lines and finds out where they start. -/
def numbered (number start : Nat) : List (List Char) → List SourceLine
  | [] => []
  | chars :: rest =>
    ⟨number, start, chars⟩ :: numbered (number + 1) (start + byteLength chars + 1) rest

/-- The line that holds the byte at an offset, or else the last line. -/
def at? (offset : Nat) (text : String) : Option SourceLine :=
  ((numbered 1 0 (lines text.toList)).filter (·.start ≤ offset)).getLast?

/-- The number of characters that lie wholly within the first bytes. -/
def charsWithin (bytes : Nat) : List Char → Nat
  | [] => 0
  | c :: cs => if c.utf8Size ≤ bytes then 1 + charsWithin (bytes - c.utf8Size) cs else 0

/-- The number of the column in which a byte of the line stands. -/
def column (line : SourceLine) (offset : Nat) : Nat :=
  1 + charsWithin (offset - line.start) line.chars

/-- The characters that are shown: without the line end and padding. -/
def shown (line : SourceLine) : List Char :=
  (line.chars.reverse.dropWhile fun c => c == '\r' || c == '\x00').reverse

end SourceLine

/-! ## Cells -/

/-- A character of a line with the bytes and the columns that it takes. Behind the last character
    there is a cell without one. -/
structure Cell where
  char : Option Char
  span : Span
  columns : Nat

namespace Cell

/-- The cells of a line from some byte and some column on. -/
def ofChars (byte column : Nat) : List Char → List Cell
  | [] => [⟨none, ⟨byte, byte + 1⟩, 1⟩]
  | c :: cs =>
    let columns := columnsAt column c
    ⟨some c, ⟨byte, byte + c.utf8Size⟩, columns⟩ ::
      ofChars (byte + c.utf8Size) (column + columns) cs

/-- A cell in the line itself. -/
def text (cell : Cell) : List Char :=
  match cell.char with
  | none => []
  | some '\t' => List.replicate cell.columns ' '
  | some c => [c]

/-- A cell in the line of carets below: marked if it overlaps the labelled bytes, empty room in
    front of them, and nothing behind. -/
def mark (label : Span) (cell : Cell) : List Char :=
  if max label.start cell.span.start < min label.stop cell.span.stop then
    List.replicate cell.columns '^'
  else if cell.span.start < label.stop then List.replicate cell.columns ' '
  else []

end Cell

/-! ## Diagnostics -/

namespace Diagnostic

/-- The gutter beside a line that has no number. -/
def gutter (width : Nat) : String :=
  String.ofList (List.replicate (width + 1) ' ')

/-- A label with the file and the line it points at. -/
structure Located where
  label : Label
  file : SourceFile
  line : SourceLine

/-- Finds a label's place, if its file is known. -/
def locate (files : List SourceFile) (label : Label) : Option Located := do
  let file ← files[label.file]?
  return ⟨label, file, ← SourceLine.at? label.span.start file.text⟩

/-- The bytes of the line that a label marks, of which there is at least one. -/
def Located.marked (l : Located) : Span :=
  let start := l.label.span.start - l.line.start
  ⟨start, max (l.label.span.stop - l.line.start) (start + 1)⟩

/-- The lines that show where a label points. -/
def Located.render (width : Nat) (l : Located) : List String :=
  let cells := Cell.ofChars 0 0 l.line.shown
  let room := gutter width
  [s!"{room}┌─ {l.file.name}:{l.line.number}:{l.line.column l.label.span.start}",
    s!"{room}│",
    s!"{l.line.number} │ {String.ofList (cells.flatMap Cell.text)}",
    s!"{room}│ {String.ofList (cells.flatMap (Cell.mark l.marked))} {l.label.message}"]

/-- The columns of the line number. -/
def Located.width (l : Located) : Nat :=
  (Nat.toDigits 10 l.line.number).length

/-- A diagnostic as text, if the files of all its labels are known. -/
def render (files : List SourceFile) (d : Diagnostic) : Option String := do
  let located ← d.labels.mapM (locate files)
  let width := (located.map Located.width).foldl max 0
  let places := located.flatMap (Located.render width)
  let parting := if located.isEmpty || d.notes.isEmpty then [] else [s!"{gutter width}│"]
  let notes := d.notes.map fun note => s!"{gutter width}= {note}"
  let all := s!"{d.severity.name}: {d.message}" :: places ++ parting ++ notes ++ [""]
  return String.join (all.map (· ++ "\n"))

end Diagnostic

/-- Shows findings one after the other up to the first that cannot be shown, and says whether there
    was such a one. -/
def renderFindings (files : List SourceFile) : List Finding → String × Bool
  | [] => ("", false)
  | f :: rest =>
    match f.diagnostic.render files with
    | none => ("", true)
    | some text =>
      let (more, stuck) := renderFindings files rest
      (text ++ more, stuck)

end TypeNotation
