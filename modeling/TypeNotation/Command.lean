import TypeNotation.Prompt
import TypeNotation.Session

set_option autoImplicit false

/-! # The command line

What the arguments of the program ask for, and what the program then writes. An argument that begins
with a hyphen is a flag, unless it is nothing but one hyphen or stands behind `--`. No flag may be
given twice on one side of the command's name. -/

namespace TypeNotation

/-- What the program can be asked to do. -/
inductive Command where
  | parse (spec : String) (pretty : Bool)
  | tokens (spec : String)
  | fmt (spec : String)
  | check (path : String)
  | repl
  | version
deriving DecidableEq

/-! ## Arguments -/

/-- A flag that some command takes. -/
inductive Flag where
  | verbose
  | version
  | pretty
deriving DecidableEq

namespace Flag

/-- How a flag is called behind two hyphens. -/
def long : Flag → String
  | verbose => "verbose"
  | version => "version"
  | pretty => "pretty"

/-- The character that a flag is called by behind one hyphen, if it has one. -/
def short? : Flag → Option Char
  | verbose => some 'v'
  | version => some 'V'
  | pretty => none

end Flag

/-- An argument as it is written. A flag that is not known here is `none`. -/
inductive Argument where
  | separator
  | flags (fs : List (Option Flag))
  | operand (text : String)

/-- Takes an argument apart where some flags are known: behind two hyphens one flag is written out,
    behind one each character is a flag. -/
def Argument.ofString (known : List Flag) (arg : String) : Argument :=
  match arg.toList with
  | ['-', '-'] => .separator
  | '-' :: '-' :: name => .flags [known.find? (·.long = String.ofList name)]
  | ['-'] => .operand arg
  | '-' :: names => .flags (names.map fun c => known.find? (·.short? = some c))
  | _ => .operand arg

/-- Why arguments are not taken any further. -/
inductive Ending where
  | misuse
  | version

/-- Adds flags to those given before. The request for the version ends everything. -/
def addFlags (given : List Flag) : List (Option Flag) → Except Ending (List Flag)
  | [] => .ok given
  | none :: _ => .error .misuse
  | some f :: rest =>
    if f ∈ given then .error .misuse
    else if f = .version then .error .version
    else addFlags (f :: given) rest

/-- Parts flags and operands of a command. Behind the separator there are only operands. -/
def operands (known given : List Flag) : List String → Except Ending (List Flag × List String)
  | [] => .ok (given, [])
  | arg :: rest =>
    match Argument.ofString known arg with
    | .separator => .ok (given, rest)
    | .flags fs => do operands known (← addFlags given fs) rest
    | .operand text => do
      let (given, texts) ← operands known given rest
      return (given, text :: texts)

/-- The command of a name, with its own arguments. -/
def Command.ofName (name : String) (args : List String) : Except Ending Command := do
  match name with
  | "parse" =>
    match ← operands [.verbose, .pretty] [] args with
    | (flags, [spec]) => return parse spec (.pretty ∈ flags)
    | _ => throw .misuse
  | "tokens" =>
    match ← operands [.verbose] [] args with
    | (_, [spec]) => return tokens spec
    | _ => throw .misuse
  | "fmt" =>
    match ← operands [.verbose] [] args with
    | (_, [spec]) => return fmt spec
    | _ => throw .misuse
  | "check" =>
    match ← operands [.verbose] [] args with
    | (_, [path]) => if path.isEmpty then throw .misuse else return check path
    | _ => throw .misuse
  | "repl" =>
    match ← operands [.verbose] [] args with
    | (_, []) => return repl
    | _ => throw .misuse
  | _ => throw .misuse

/-- Takes the flags before the command's name. -/
def Command.ofArgsAfter (given : List Flag) : List String → Except Ending Command
  | [] => .error .misuse
  | arg :: rest =>
    match Argument.ofString [.verbose, .version] arg with
    | .separator => .error .misuse
    | .flags fs => do ofArgsAfter (← addFlags given fs) rest
    | .operand name => ofName name rest

/-- The command that the arguments ask for, if they are used as they should. -/
def Command.ofArgs? (args : List String) : Option Command :=
  match Command.ofArgsAfter [] args with
  | .ok command => some command
  | .error .version => some .version
  | .error .misuse => none

/-! ## Running a command -/

/-- What a run of the program comes to. -/
structure Outcome where
  code : Nat
  output : Output

namespace Outcome

/-- Success, with `text` on the standard output. -/
def success (text : String) : Outcome :=
  ⟨0, .out text⟩

/-- A failure with what was written about it before its message. -/
def failure (text message : String) : Outcome :=
  ⟨1, .err s!"{text}error: {message}\n"⟩

/-- The outcome of arguments that are not used as they should. -/
def misuse : Outcome :=
  ⟨2, .err ("usage: typespec [-v] parse SPEC [--pretty] | tokens SPEC | fmt SPEC | check FILE | " ++
    "repl\n")⟩

end Outcome

/-- Reads a specification and shows what is made of it, or what is wrong. -/
def withSpec (spec : String) (present : TypeExpr → String) : Outcome :=
  match TypeExpr.parse spec with
  | .ok (of, _) => .success (present of ++ "\n")
  | .error refusal =>
    .failure (renderFindings [⟨"<spec>", spec⟩] [⟨.refused refusal, 0⟩]).1 "Parsing failed"

/-- The tokens of a specification under a headline. -/
def tokenListing (spec : String) : String :=
  let ls := lexemes spec
  "=== Tokens ===\n" ++ if ls.isEmpty then "" else dump ls ++ "\n"

/-- The outcome of checking a file. The lines of the log are left out of the standard error: by
    default a check logs at the level `info` that it begins and what it has counted. -/
def checkEntry (path : String) (entry : Entry) : Outcome :=
  match Session.ofEntry path entry with
  | .error _ => .failure "" s!"Failed to load specifications from {quoted path}"
  | .ok session =>
    let (checked, session) := session.run
    let (text, _) := session.emit
    let errors := session.report.errors.length
    let warnings := session.report.warnings.length
    if session.report.hasErrors then
      .failure text s!"{errors} of {checked.length + errors} specification(s) failed to parse"
    else if session.report.hasWarnings then
      ⟨0, s!"success: {checked.length} specification(s) parsed, {warnings} warning(s)\n", text⟩
    else ⟨0, s!"success: {checked.length} specification(s) parsed\n", text⟩

/-- The outcome of a command, given what stands at each path and what is typed in. -/
def Command.run (entryAt : String → Entry) (input : String) : Command → Outcome
  | parse spec pretty =>
    withSpec spec fun of => if pretty then of.toJson.pretty else of.toJson.compact
  | tokens spec => .success (tokenListing spec)
  | fmt spec => withSpec spec TypeExpr.text
  | check path => checkEntry path (entryAt path)
  | repl => ⟨0, Prompt.transcript input⟩
  | version => .success "typespec 0.1.0\n"

/-- The outcome of the program. -/
def runProgram (args : List String) (entryAt : String → Entry) (input : String) : Outcome :=
  match Command.ofArgs? args with
  | some command => command.run entryAt input
  | none => .misuse

end TypeNotation
