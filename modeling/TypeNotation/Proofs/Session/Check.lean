import TypeNotation.Proofs.Session.Run

set_option autoImplicit false

/-! # The outcome of a check

A check of a file that can be read succeeds exactly if each of its specifications can be read, and
otherwise counts those that cannot. What it counts is what a session accounts for. -/

namespace TypeNotation

theorem fromUTF8?_toUTF8 (text : String) : String.fromUTF8? text.toUTF8 = some text :=
  dif_pos text.isValidUTF8

theorem Outcome.stderr_failure (text message : String) :
    (failure text message).output.stderr = text ++ "error: " ++ message ++ "\n" :=
  rfl

namespace Session

theorem hasErrors_run_iff (s : Session) :
    s.run.2.report.hasErrors = true ↔
      ∃ x ∈ s.specs, ∃ refusal, TypeExpr.parse x.text = .error refusal := by
  rw [Report.hasErrors, Bool.not_eq_true', List.isEmpty_eq_false_iff_exists_mem]
  constructor
  · rintro ⟨f, hf⟩
    obtain ⟨x, refusal, hx, hread, -⟩ := (s.accounts_run.mem_errors_iff f).1 hf
    exact ⟨x, List.mem_of_getElem? hx, refusal, hread⟩
  · rintro ⟨x, hx, refusal, hread⟩
    obtain ⟨i, hi⟩ := List.getElem?_of_mem hx
    exact ⟨⟨.refused refusal, i⟩, (s.accounts_run.mem_errors_iff _).2 ⟨x, refusal, hi, hread, rfl⟩⟩

theorem hasErrors_run_eq_false_iff (s : Session) :
    s.run.2.report.hasErrors = false ↔
      ∀ x ∈ s.specs, ∃ of rest, TypeExpr.parse x.text = .ok (of, rest) := by
  rw [← Bool.not_eq_true, hasErrors_run_iff]
  constructor
  · intro h x hx
    cases hread : TypeExpr.parse x.text with
    | ok result => exact ⟨result.1, result.2, rfl⟩
    | error refusal => exact absurd ⟨x, hx, refusal, hread⟩ h
  · rintro h ⟨x, hx, refusal, hread⟩
    obtain ⟨of, rest, hok⟩ := h x hx
    cases hok.symm.trans hread

theorem length_run (s : Session) :
    s.run.1.length + s.run.2.report.errors.length = s.specs.length := by
  have hlength : (verdicts s.specs).length = s.specs.length := List.length_mapIdx
  rw [← hlength]
  exact length_checked_add_length_errors _

/-- What is said when some of a text's specifications cannot be read. -/
def shortfall (failed total : Nat) : String :=
  s!"{failed} of {total} specification(s) failed to parse"

theorem checkEntry_of_hasErrors {s : Session} (h : s.run.2.report.hasErrors = true) :
    checkEntry s.name (.file s.source.toUTF8)
      = .failure s.run.2.emit.1 (shortfall s.run.2.report.errors.length s.specs.length) := by
  rw [← s.length_run, checkEntry, ofEntry, fromUTF8?_toUTF8]
  exact if_pos h

theorem code_checkEntry_of_not_hasErrors {s : Session} (h : s.run.2.report.hasErrors = false) :
    (checkEntry s.name (.file s.source.toUTF8)).code = 0 := by
  have hrun : (ofSource s.name s.source).run.2.report.hasErrors = false := h
  rw [checkEntry, ofEntry, fromUTF8?_toUTF8]
  simp only [hrun, Bool.false_eq_true, if_false]
  split <;> rfl

/-- `specs` are the lines (`IsLine`) that `Trims` to a text that is neither empty nor a comment, by
    increasing number. `run` satisfies `Accounts`: each of them is a file of its own, and either a
    result or an error under the number of that file, with a warning if lexemes are left. It is the
    fold of `checkNext` from empty lists, so that a second `run` gives the same, and `emit` gets
    through. `Command.check` ends with code 0 if and only if every specification is read, and
    otherwise with code 1, and with the `shortfall` behind the diagnostics. -/
theorem accounts_run_and_code_check (s : Session) :
    (s.specs.Pairwise fun x y => x.number < y.number) ∧
      (∀ x, x ∈ s.specs ↔ ∃ line, IsLine s.source.toList x.number line ∧
        Trims line x.text.toList ∧ x.text ≠ "" ∧ x.text.toList.head? ≠ some '#') ∧
      s.Accounts s.run.1 s.run.2 ∧
      s.run.1.length + s.run.2.report.errors.length = s.specs.length ∧
      s.run.2.report.warnings.length ≤ s.run.1.length ∧
      s.run = s.specs.foldl checkNext ([], ⟨s.name, s.source, [], .empty⟩) ∧
      s.run.2.run = s.run ∧ s.run.2.emit.2 = none ∧
      ∀ (entryAt : String → Entry) (input : String), entryAt s.name = .file s.source.toUTF8 →
        (((Command.check s.name).run entryAt input).code = 0 ↔
          ∀ x ∈ s.specs, ∃ of rest, TypeExpr.parse x.text = .ok (of, rest)) ∧
        (((Command.check s.name).run entryAt input).code ≠ 0 →
          ((Command.check s.name).run entryAt input).code = 1 ∧
            ((Command.check s.name).run entryAt input).output.stderr
              = s.run.2.emit.1 ++ "error: " ++
                shortfall s.run.2.report.errors.length s.specs.length ++ "\n") := by
  refine ⟨SpecLine.pairwise_ofLines 1 _, fun x => SpecLine.mem_ofText_iff, s.accounts_run,
    s.length_run, length_warnings_le _, s.run_eq_foldl, rfl, s.emit_run, ?_⟩
  intro entryAt input hentry
  have hrun : (Command.check s.name).run entryAt input
      = checkEntry s.name (.file s.source.toUTF8) := by
    rw [Command.run, hentry]
  rw [hrun, ← hasErrors_run_eq_false_iff]
  cases herrors : s.run.2.report.hasErrors with
  | true =>
    rw [checkEntry_of_hasErrors herrors]
    refine ⟨⟨nofun, nofun⟩, fun _ => ⟨rfl, Outcome.stderr_failure _ _⟩⟩
  | false =>
    have hcode := code_checkEntry_of_not_hasErrors herrors
    exact ⟨⟨fun _ => rfl, fun _ => hcode⟩, fun hne => absurd hcode hne⟩

/-- A comment, two specifications of which the second cannot be read, and an empty line. -/
def mixed : Session :=
  .ofSource "types.txt" "# names\n A \n\n[A\n"

/-- The instance at `mixed`, with a file that holds its text. -/
theorem accounts_run_and_code_check_mixed :
    mixed.specs = [⟨2, "A"⟩, ⟨4, "[A"⟩] ∧
      mixed.run.1.length + mixed.run.2.report.errors.length = 2 ∧
      (((Command.check mixed.name).run (fun _ => .file mixed.source.toUTF8) "").code = 0 ↔
        ∀ x ∈ mixed.specs, ∃ of rest, TypeExpr.parse x.text = .ok (of, rest)) := by
  have hspecs : mixed.specs = [⟨2, "A"⟩, ⟨4, "[A"⟩] := by decide
  obtain ⟨-, -, -, hlength, -, -, -, -, hcheck⟩ := accounts_run_and_code_check mixed
  rw [hspecs] at hlength
  exact ⟨hspecs, hlength, (hcheck (fun _ => .file mixed.source.toUTF8) "" rfl).1⟩

end Session

end TypeNotation
