import TypeNotation.Fault

set_option autoImplicit false

/-! # What checking brings up, and how it is shown

An `Issue` is one thing that checking a file of specifications brings up. A `Finding` is an issue
in a numbered file. A `Report` keeps findings in the order in which they were made, errors and
warnings apart; which of the two a finding is, whoever adds it decides. A `Diagnostic` is a finding
as it is shown to a person: how grave it is, what it says, which places of which files it points
at, and notes behind it. -/

namespace TypeNotation

/-! ## Findings -/

/-- One thing that checking a file of specifications brings up. -/
inductive Issue where
  /-- A specification is none. -/
  | refused (refusal : Refusal)
  /-- Behind a specification there are further tokens; the span reaches from the first of them to
      the last. -/
  | trailing (spellings : List String) (span : Span)
  /-- A file cannot be read or written about. -/
  | unreadable (path : String) (reason : String)

namespace Issue

/-- The whole wording of an issue. That of a refusal is `Refusal.message`, with the tokens that
    remain. -/
def message : Issue → String
  | refused refusal => refusal.message
  | trailing spellings _ => s!"trailing tokens were ignored: {listed spellings}"
  | unreadable path reason => s!"failed to read {path}: {reason}"

/-- The place that an issue is about, unless it is about a whole file or about an empty text. -/
def span? : Issue → Option Span
  | refused refusal => refusal.fault.span?
  | trailing _ span => some span
  | unreadable _ _ => none

end Issue

/-- An issue in a file. -/
structure Finding where
  issue : Issue
  file : Nat

/-- The findings of a check. -/
structure Report where
  errors : List Finding
  warnings : List Finding

namespace Report

/-- The report in which nothing was found. -/
def empty : Report :=
  ⟨[], []⟩

/-- Puts a finding behind the errors, whatever its severity. -/
def addError (r : Report) (f : Finding) : Report :=
  { r with errors := r.errors ++ [f] }

/-- Puts a finding behind the warnings, whatever its severity. -/
def addWarning (r : Report) (f : Finding) : Report :=
  { r with warnings := r.warnings ++ [f] }

/-- All findings in the order in which they are shown. -/
def findings (r : Report) : List Finding :=
  r.errors ++ r.warnings

/-- Whether `errors` is not empty. -/
def hasErrors (r : Report) : Bool :=
  !r.errors.isEmpty

/-- Whether `warnings` is not empty. -/
def hasWarnings (r : Report) : Bool :=
  !r.warnings.isEmpty

end Report

/-! ## Diagnostics -/

/-- How grave an issue is. -/
inductive Severity where
  | error
  | warning
deriving DecidableEq

/-- The word in front of the headline of a diagnostic. -/
def Severity.name : Severity → String
  | error => "error"
  | warning => "warning"

/-- A place of a file and what is said about it. -/
structure Label where
  file : Nat
  span : Span
  message : String

/-- What is shown of a finding: its headline behind the name of its severity, the places that it
    points at, and the notes below them. -/
structure Diagnostic where
  severity : Severity
  message : String
  labels : List Label
  notes : List String

namespace Issue

/-- Trailing tokens are the only issue that is no error. -/
def severity : Issue → Severity
  | refused _ | unreadable _ _ => .error
  | trailing _ _ => .warning

/-- What a diagnostic says about an issue as a whole. The place and the remaining tokens of a
    refusal are shown apart from it. -/
def headline : Issue → String
  | refused refusal => refusal.fault.message
  | issue => issue.message

/-- What is said about the place of an issue. -/
def placeMessage : Issue → String
  | refused _ => "ここで解析に失敗しました"
  | trailing _ _ => "この位置以降は読み込まれません"
  | unreadable _ _ => ""

/-- The notes below the places: of a refusal that leaves tokens, which they are. -/
def notes : Issue → List String
  | refused refusal =>
    if refusal.remaining.isEmpty then []
    else [s!"remaining tokens: {listed refusal.remaining}"]
  | _ => []

end Issue

/-- A finding as it is shown. -/
def Finding.diagnostic (f : Finding) : Diagnostic where
  severity := f.issue.severity
  message := f.issue.headline
  labels := f.issue.span?.toList.map fun span => ⟨f.file, span, f.issue.placeMessage⟩
  notes := f.issue.notes

end TypeNotation
