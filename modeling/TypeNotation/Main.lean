import TypeNotation.Command

set_option autoImplicit false

/-! # The program

Reads the arguments and the files that they name, and writes what the command comes to. At the
prompt every line is answered as soon as it is read. -/

namespace TypeNotation.Program

/-- What stands at a path. -/
def readEntry (path : String) : IO Entry := do
  try
    return .file (← IO.FS.readBinFile path)
  catch
    | .inappropriateType .. => return .directory
    | _ => return .missing

/-- Writes an output. -/
def write (output : Output) : IO Unit := do
  IO.print output.stdout
  IO.eprint output.stderr
  (← IO.getStdout).flush

/-- Answers one line after the other. -/
partial def converse (input : IO.FS.Stream) (p : Prompt) : IO Unit := do
  write (.out p.text)
  let line ← input.getLine
  if line.isEmpty then write (.out "\n")
  else
    let (reply, next) := p.respond (Request.ofLine line.toList)
    write reply
    match next with
    | some p' => converse input p'
    | none => return

/-- Runs the program on its arguments and gives its exit code. -/
def run (args : List String) : IO UInt32 := do
  match Command.ofArgs? args with
  | none =>
    write Outcome.misuse.output
    return UInt32.ofNat Outcome.misuse.code
  | some .repl =>
    write (.out Prompt.greeting)
    converse (← IO.getStdin) .start
    return 0
  | some command =>
    let entry ← match command with
      | .check path => readEntry path
      | _ => pure .missing
    let outcome := command.run (fun _ => entry) ""
    write outcome.output
    return UInt32.ofNat outcome.code

end TypeNotation.Program

/-- Runs `Program.run` on the arguments. -/
def main (args : List String) : IO UInt32 :=
  TypeNotation.Program.run args
