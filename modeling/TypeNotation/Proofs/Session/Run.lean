import Mathlib.Data.List.Induction
import TypeNotation.Command
import TypeNotation.Proofs.Session.Specs

set_option autoImplicit false

/-! # A check accounts for every specification

A check comes to what a loop over the specifications comes to that begins with nothing and adds one
of them after the other (`Session.run_eq_foldl`). `Session.Accounts` says what each list holds in
the end: every specification is a file of its own and is either kept with its type expression or
brings up one error, and those with further tokens behind them bring up one warning. -/

namespace TypeNotation

namespace Session

/-! ## Checking in a loop -/

/-- The session as it is before a check, with nothing known of its text. -/
def cleared (s : Session) : Session :=
  { s with files := [], report := .empty }

/-- Checks one more specification: it becomes the next file, and what it comes to is added behind
    what the ones before came to. -/
def checkNext (acc : List Checked × Session) (line : SpecLine) : List Checked × Session :=
  let (checked, s) := acc
  let file := s.files.length
  let s := { s with files := s.files ++ [s.fileOf line] }
  match TypeExpr.parse line.text with
  | .ok (value, rest) =>
    match trailingIssue? rest with
    | some issue =>
      (checked ++ [⟨line, value⟩], { s with report := s.report.addWarning ⟨issue, file⟩ })
    | none => (checked ++ [⟨line, value⟩], s)
  | .error refusal => (checked, { s with report := s.report.addError ⟨.refused refusal, file⟩ })

/-- What each of some specifications comes to. -/
def verdicts (xs : List SpecLine) : List Verdict :=
  xs.mapIdx fun file line => Verdict.ofLine line file

/-- What a check comes to when it has got through some specifications. -/
def through (s : Session) (xs : List SpecLine) : List Checked × Session :=
  ((verdicts xs).filterMap Verdict.checked?,
    { s with
      files := xs.map s.fileOf
      report :=
        ⟨(verdicts xs).filterMap Verdict.error?, (verdicts xs).filterMap Verdict.warning?⟩ })

theorem verdicts_append_singleton (xs : List SpecLine) (x : SpecLine) :
    verdicts (xs ++ [x]) = verdicts xs ++ [Verdict.ofLine x xs.length] := by
  simp [verdicts, List.mapIdx_append]

theorem checkNext_through (s : Session) (xs : List SpecLine) (x : SpecLine) :
    checkNext (s.through xs) x = s.through (xs ++ [x]) := by
  have hlength : (xs.map s.fileOf).length = xs.length := List.length_map _
  rw [through, through, verdicts_append_singleton, checkNext]
  simp only [hlength, List.filterMap_append, List.map_append]
  cases hparse : TypeExpr.parse x.text with
  | error refusal =>
    simp [Verdict.ofLine, Verdict.checked?, Verdict.error?, Verdict.warning?, hparse,
      Report.addError, fileOf]
  | ok result =>
    obtain ⟨value, rest⟩ := result
    cases htrailing : trailingIssue? rest with
    | none =>
      simp [Verdict.ofLine, Verdict.checked?, Verdict.error?, Verdict.warning?, hparse, htrailing,
        fileOf]
    | some issue =>
      simp [Verdict.ofLine, Verdict.checked?, Verdict.error?, Verdict.warning?, hparse, htrailing,
        Report.addWarning, fileOf]

theorem foldl_checkNext (s : Session) (xs : List SpecLine) :
    xs.foldl checkNext ([], s.cleared) = s.through xs := by
  induction xs using List.reverseRecOn with
  | nil => rfl
  | append_singleton xs x ih => rw [List.foldl_append, ih, List.foldl_cons, List.foldl_nil,
      checkNext_through]

theorem run_eq_foldl (s : Session) : s.run = s.specs.foldl checkNext ([], s.cleared) :=
  (s.foldl_checkNext s.specs).symm

/-! ## What the lists hold -/

/-- What a check of a session leaves behind, list by list. The specification at each index is the
    file of that index, and what is found in it carries that index. -/
structure Accounts (s : Session) (checked : List Checked) (after : Session) : Prop where
  name_eq : after.name = s.name
  source_eq : after.source = s.source
  files_eq : after.files = s.specs.map fun x => ⟨s!"{s.name}:{x.number}", x.text⟩
  /-- The specifications that can be read are kept with their type expressions. -/
  mem_checked_iff : ∀ c, c ∈ checked ↔
    c.line ∈ s.specs ∧ ∃ rest, TypeExpr.parse c.line.text = .ok (c.value, rest)
  checked_ordered : checked.Pairwise fun c d => c.line.number < d.line.number
  /-- Each of the others is an error, for the reason that it is refused. -/
  mem_errors_iff : ∀ f, f ∈ after.report.errors ↔
    ∃ x refusal, s.specs[f.file]? = some x ∧ TypeExpr.parse x.text = .error refusal ∧
      f.issue = .refused refusal
  errors_ordered : after.report.errors.Pairwise fun f g => f.file < g.file
  /-- Further tokens behind a type expression are a warning, from the first to the last of them. -/
  mem_warnings_iff : ∀ f, f ∈ after.report.warnings ↔
    ∃ x of rest first last, s.specs[f.file]? = some x ∧ TypeExpr.parse x.text = .ok (of, rest) ∧
      rest.head? = some first ∧ rest.getLast? = some last ∧
      f.issue = .trailing (spellings rest) ⟨first.span.start, last.span.stop⟩
  warnings_ordered : after.report.warnings.Pairwise fun f g => f.file < g.file

variable {xs : List SpecLine} {v : Verdict}

theorem mem_verdicts_iff :
    v ∈ verdicts xs ↔ xs[v.file]? = some v.line ∧ v.result = TypeExpr.parse v.line.text := by
  rw [verdicts, List.mem_mapIdx]
  constructor
  · rintro ⟨i, hi, rfl⟩
    exact ⟨List.getElem?_eq_getElem hi, rfl⟩
  · rintro ⟨hline, hresult⟩
    obtain ⟨hi, hline⟩ := List.getElem?_eq_some_iff.1 hline
    obtain ⟨line, file, result⟩ := v
    obtain rfl : result = TypeExpr.parse line.text := hresult
    exact ⟨file, hi, by rw [hline]; rfl⟩

theorem pairwise_verdicts (xs : List SpecLine) :
    (verdicts xs).Pairwise fun v w => v.file < w.file := by
  rw [List.pairwise_iff_getElem]
  intro i j hi hj hij
  simpa [verdicts, Verdict.ofLine] using hij

theorem pairwise_filterMap_verdicts (xs : List SpecLine) {f : Verdict → Option Finding}
    (hf : ∀ v finding, f v = some finding → finding.file = v.file) :
    ((verdicts xs).filterMap f).Pairwise fun a b => a.file < b.file := by
  refine (pairwise_verdicts xs).filterMap f fun v w hvw a ha b hb => ?_
  rw [hf v a ha, hf w b hb]
  exact hvw

theorem mem_checked_iff {c : Checked} :
    c ∈ (verdicts xs).filterMap Verdict.checked? ↔
      c.line ∈ xs ∧ ∃ rest, TypeExpr.parse c.line.text = .ok (c.value, rest) := by
  rw [List.mem_filterMap]
  constructor
  · rintro ⟨v, hv, hc⟩
    obtain ⟨hline, hresult⟩ := mem_verdicts_iff.1 hv
    unfold Verdict.checked? at hc
    split at hc
    · next value rest hread =>
      cases hc
      exact ⟨List.mem_of_getElem? hline, rest, hresult.symm.trans hread⟩
    · cases hc
  · rintro ⟨hline, rest, hread⟩
    obtain ⟨i, hi⟩ := List.getElem?_of_mem hline
    exact ⟨Verdict.ofLine c.line i, mem_verdicts_iff.2 ⟨hi, rfl⟩,
      by simp [Verdict.checked?, Verdict.ofLine, hread]⟩

theorem mem_errors_iff {f : Finding} :
    f ∈ (verdicts xs).filterMap Verdict.error? ↔
      ∃ x refusal, xs[f.file]? = some x ∧ TypeExpr.parse x.text = .error refusal ∧
        f.issue = .refused refusal := by
  rw [List.mem_filterMap]
  constructor
  · rintro ⟨v, hv, hf⟩
    obtain ⟨hline, hresult⟩ := mem_verdicts_iff.1 hv
    unfold Verdict.error? at hf
    split at hf
    · cases hf
    · next refusal hread =>
      cases hf
      exact ⟨v.line, refusal, hline, hresult.symm.trans hread, rfl⟩
  · rintro ⟨x, refusal, hx, hread, hissue⟩
    obtain ⟨issue, file⟩ := f
    obtain rfl : issue = .refused refusal := hissue
    exact ⟨Verdict.ofLine x file, mem_verdicts_iff.2 ⟨hx, rfl⟩,
      by simp [Verdict.error?, Verdict.ofLine, hread]⟩

theorem trailingIssue?_eq_some_iff {rest : List Lexeme} {issue : Issue} :
    trailingIssue? rest = some issue ↔
      ∃ first last, rest.head? = some first ∧ rest.getLast? = some last ∧
        issue = .trailing (spellings rest) ⟨first.span.start, last.span.stop⟩ := by
  rw [trailingIssue?, Option.bind_eq_bind, Option.bind_eq_some_iff]
  constructor
  · rintro ⟨first, hfirst, h⟩
    obtain ⟨last, hlast, h⟩ := Option.bind_eq_some_iff.1 h
    exact ⟨first, last, hfirst, hlast, (Option.some.inj h).symm⟩
  · rintro ⟨first, last, hfirst, hlast, rfl⟩
    exact ⟨first, hfirst, Option.bind_eq_some_iff.2 ⟨last, hlast, rfl⟩⟩

theorem mem_warnings_iff {f : Finding} :
    f ∈ (verdicts xs).filterMap Verdict.warning? ↔
      ∃ x of rest first last, xs[f.file]? = some x ∧ TypeExpr.parse x.text = .ok (of, rest) ∧
        rest.head? = some first ∧ rest.getLast? = some last ∧
        f.issue = .trailing (spellings rest) ⟨first.span.start, last.span.stop⟩ := by
  rw [List.mem_filterMap]
  constructor
  · rintro ⟨v, hv, hf⟩
    obtain ⟨hline, hresult⟩ := mem_verdicts_iff.1 hv
    unfold Verdict.warning? at hf
    split at hf
    · next of rest hread =>
      obtain ⟨issue, hissue, rfl⟩ := Option.map_eq_some_iff.1 hf
      obtain ⟨first, last, hfirst, hlast, rfl⟩ := trailingIssue?_eq_some_iff.1 hissue
      exact ⟨v.line, of, rest, first, last, hline, hresult.symm.trans hread, hfirst, hlast, rfl⟩
    · cases hf
  · rintro ⟨x, of, rest, first, last, hx, hread, hfirst, hlast, hissue⟩
    obtain ⟨issue, file⟩ := f
    have htrailing := trailingIssue?_eq_some_iff.2 ⟨first, last, hfirst, hlast, hissue⟩
    exact ⟨Verdict.ofLine x file, mem_verdicts_iff.2 ⟨hx, rfl⟩,
      by simp [Verdict.warning?, Verdict.ofLine, hread, htrailing]⟩

theorem map_line_verdicts (xs : List SpecLine) : (verdicts xs).map Verdict.line = xs := by
  apply List.ext_getElem?
  intro i
  cases hi : xs[i]? <;> simp [verdicts, Verdict.ofLine, hi]

theorem pairwise_checked {R : SpecLine → SpecLine → Prop} (h : xs.Pairwise R) :
    ((verdicts xs).filterMap Verdict.checked?).Pairwise fun c d => R c.line d.line := by
  rw [← map_line_verdicts xs, List.pairwise_map] at h
  have hline : ∀ (v : Verdict) (c : Checked), v.checked? = some c → c.line = v.line := by
    intro v c hc
    unfold Verdict.checked? at hc
    split at hc <;> cases hc
    rfl
  refine h.filterMap _ fun v w hvw c hc d hd => ?_
  rw [hline v c hc, hline w d hd]
  exact hvw

theorem accounts_run (s : Session) : s.Accounts s.run.1 s.run.2 where
  name_eq := rfl
  source_eq := rfl
  files_eq := rfl
  mem_checked_iff _ := mem_checked_iff
  checked_ordered := pairwise_checked (SpecLine.pairwise_ofLines 1 _)
  mem_errors_iff _ := mem_errors_iff
  errors_ordered := pairwise_filterMap_verdicts _ fun v f hf => by
    unfold Verdict.error? at hf
    split at hf <;> cases hf
    rfl
  mem_warnings_iff _ := mem_warnings_iff
  warnings_ordered := pairwise_filterMap_verdicts _ fun v f hf => by
    unfold Verdict.warning? at hf
    split at hf
    · obtain ⟨issue, -, rfl⟩ := Option.map_eq_some_iff.1 hf
      rfl
    · cases hf

/-! ## How many there are -/

/-- Every specification is either kept or an error. -/
theorem length_checked_add_length_errors (vs : List Verdict) :
    (vs.filterMap Verdict.checked?).length + (vs.filterMap Verdict.error?).length = vs.length := by
  induction vs with
  | nil => rfl
  | cons v vs ih =>
    cases hresult : v.result with
    | ok result =>
      have hchecked : v.checked? = some ⟨v.line, result.1⟩ := by simp [Verdict.checked?, hresult]
      have herror : v.error? = none := by simp [Verdict.error?, hresult]
      rw [List.filterMap_cons_some hchecked, List.filterMap_cons_none herror, List.length_cons,
        List.length_cons]
      omega
    | error refusal =>
      have hchecked : v.checked? = none := by simp [Verdict.checked?, hresult]
      have herror : v.error? = some ⟨.refused refusal, v.file⟩ := by simp [Verdict.error?, hresult]
      rw [List.filterMap_cons_some herror, List.filterMap_cons_none hchecked, List.length_cons,
        List.length_cons]
      omega

/-- Only a specification that is kept brings up a warning. -/
theorem length_warnings_le (vs : List Verdict) :
    (vs.filterMap Verdict.warning?).length ≤ (vs.filterMap Verdict.checked?).length := by
  induction vs with
  | nil => exact Nat.le_refl _
  | cons v vs ih =>
    cases hresult : v.result with
    | ok result =>
      have hchecked : v.checked? = some ⟨v.line, result.1⟩ := by simp [Verdict.checked?, hresult]
      rw [List.filterMap_cons_some hchecked, List.length_cons, List.filterMap_cons]
      split
      · omega
      · rw [List.length_cons]
        omega
    | error refusal =>
      have hchecked : v.checked? = none := by simp [Verdict.checked?, hresult]
      have hwarning : v.warning? = none := by simp [Verdict.warning?, hresult]
      rwa [List.filterMap_cons_none hchecked, List.filterMap_cons_none hwarning]

end Session

/-! ## Everything that is found can be shown -/

theorem SourceLine.exists_at? (offset : Nat) (text : String) :
    ∃ line, SourceLine.at? offset text = some line := by
  -- the first line begins at 0
  obtain ⟨first, rest, hlines⟩ := List.exists_cons_of_ne_nil (lines_ne_nil text.toList)
  rw [← Option.isSome_iff_exists, at?, hlines, numbered, List.filter_cons_of_pos (by simp)]
  simp

theorem Diagnostic.exists_locate {files : List SourceFile} (label : Label)
    (h : label.file < files.length) : ∃ located, locate files label = some located := by
  obtain ⟨line, hline⟩ := SourceLine.exists_at? label.span.start files[label.file].text
  exact ⟨⟨label, files[label.file], line⟩, by simp [locate, List.getElem?_eq_getElem h, hline]⟩

theorem Finding.exists_render {files : List SourceFile} {f : Finding} (h : f.file < files.length) :
    ∃ text, f.diagnostic.render files = some text := by
  have hlocated : ∃ located, f.diagnostic.labels.mapM (Diagnostic.locate files) = some located := by
    rw [diagnostic]
    cases f.issue.span? with
    | none => exact ⟨[], rfl⟩
    | some span =>
      obtain ⟨located, hlocate⟩ :=
        Diagnostic.exists_locate ⟨f.file, span, f.issue.placeMessage⟩ h
      exact ⟨[located], by simp [hlocate]⟩
  obtain ⟨located, hlocated⟩ := hlocated
  rw [Diagnostic.render, hlocated]
  exact ⟨_, rfl⟩

theorem renderFindings_complete {files : List SourceFile} {fs : List Finding}
    (h : ∀ f ∈ fs, f.file < files.length) : (renderFindings files fs).2 = false := by
  induction fs with
  | nil => rfl
  | cons f fs ih =>
    rw [List.forall_mem_cons] at h
    obtain ⟨text, htext⟩ := Finding.exists_render h.1
    rw [renderFindings, htext]
    exact ih h.2

namespace Session

/-- What a check finds lies in the files that it made. -/
theorem file_lt_of_mem_findings (s : Session) {f : Finding} (h : f ∈ s.run.2.report.findings) :
    f.file < s.run.2.files.length := by
  have hlt : ∀ x, s.specs[f.file]? = some x → f.file < s.run.2.files.length := by
    intro x hx
    obtain ⟨hlt, -⟩ := List.getElem?_eq_some_iff.1 hx
    rwa [s.accounts_run.files_eq, List.length_map]
  rcases List.mem_append.1 h with h | h
  · obtain ⟨x, -, hx, -⟩ := (s.accounts_run.mem_errors_iff f).1 h
    exact hlt x hx
  · obtain ⟨x, -, -, -, -, hx, -⟩ := (s.accounts_run.mem_warnings_iff f).1 h
    exact hlt x hx

theorem emit_run (s : Session) : s.run.2.emit.2 = none := by
  have hcomplete := renderFindings_complete fun _ => s.file_lt_of_mem_findings
  rw [emit]
  simp only [hcomplete]
  rfl

end Session

end TypeNotation
