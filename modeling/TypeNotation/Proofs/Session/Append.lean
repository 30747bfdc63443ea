import TypeNotation.Proofs.Session.Run

set_option autoImplicit false

/-! # Lines are checked apart from each other

A line feed parts a text into two texts that have nothing to do with each other. A check of the
whole finds what a check of the first part finds and behind it what a check of the second part
finds, only further down: the numbers of lines and of files go on where those of the first part end.
So a text comes to what its lines come to when each of them is checked alone. -/

namespace TypeNotation

/-! ## Further down -/

namespace SpecLine

/-- The same specification some lines further down. -/
def moveDown (n : Nat) (x : SpecLine) : SpecLine :=
  { x with number := x.number + n }

theorem ofLines_append (number : Nat) (ls ls' : List (List Char)) :
    ofLines number (ls ++ ls') = ofLines number ls ++ ofLines (number + ls.length) ls' := by
  induction ls generalizing number with
  | nil => rfl
  | cons line ls ih =>
    rw [List.cons_append, ofLines_cons, ofLines_cons, ih, List.append_assoc, List.length_cons,
      Nat.add_assoc, Nat.add_comm 1]

theorem ofLines_add (number n : Nat) (ls : List (List Char)) :
    ofLines (number + n) ls = (ofLines number ls).map (moveDown n) := by
  induction ls generalizing number with
  | nil => rfl
  | cons line ls ih =>
    rw [ofLines_cons, ofLines_cons, List.map_append, ← ih, Nat.add_right_comm]
    split <;> rfl

theorem ofText_append_newline (a b : String) :
    ofText (a ++ "\n" ++ b)
      = ofText a ++ (ofText b).map (moveDown (a.toList.count '\n' + 1)) := by
  have htext : (a ++ "\n" ++ b).toList = a.toList ++ '\n' :: b.toList := by simp
  rw [ofText, htext, lines_append_newline, ofLines_append, length_lines, ofLines_add]
  rfl

end SpecLine

/-- The same specification, with its type expression, some lines further down. -/
def Checked.moveDown (n : Nat) (c : Checked) : Checked :=
  { c with line := c.line.moveDown n }

/-- The same finding some files further on. -/
def Finding.moveOn (n : Nat) (f : Finding) : Finding :=
  { f with file := f.file + n }

/-- The same verdict some lines and some files further down. -/
def Verdict.moveDown (n k : Nat) (v : Verdict) : Verdict :=
  { v with line := v.line.moveDown n, file := v.file + k }

namespace Session

/-! ## Two texts -/

/-- What a specification comes to has nothing to do with where it stands. -/
theorem verdicts_append_moveDown (xs ys : List SpecLine) (n : Nat) :
    verdicts (xs ++ ys.map (SpecLine.moveDown n))
      = verdicts xs ++ (verdicts ys).map (Verdict.moveDown n xs.length) := by
  have hmoved : (ys.map (SpecLine.moveDown n)).mapIdx
      (fun i line => Verdict.ofLine line (i + xs.length))
        = (verdicts ys).map (Verdict.moveDown n xs.length) := by
    refine List.ext_getElem (by simp [verdicts]) fun i _ _ => ?_
    simp only [verdicts, List.getElem_mapIdx, List.getElem_map]
    rfl
  rw [verdicts, List.mapIdx_append, hmoved]
  rfl

/-- What is taken from the verdicts of two texts one by one. -/
theorem filterMap_verdicts_append {α : Type} {f : Verdict → Option α} {move : α → α}
    (xs ys : List SpecLine) {n : Nat}
    (hmove : ∀ v, f (Verdict.moveDown n xs.length v) = (f v).map move) :
    (verdicts (xs ++ ys.map (SpecLine.moveDown n))).filterMap f
      = (verdicts xs).filterMap f ++ ((verdicts ys).filterMap f).map move := by
  rw [verdicts_append_moveDown, List.filterMap_append, List.filterMap_map, List.map_filterMap]
  congr 2
  exact funext hmove

theorem checked?_moveDown (n k : Nat) (v : Verdict) :
    (v.moveDown n k).checked? = v.checked?.map (Checked.moveDown n) := by
  cases hresult : v.result <;> simp [Verdict.checked?, Verdict.moveDown, hresult, Checked.moveDown]

theorem error?_moveDown (n k : Nat) (v : Verdict) :
    (v.moveDown n k).error? = v.error?.map (Finding.moveOn k) := by
  cases hresult : v.result <;> simp [Verdict.error?, Verdict.moveDown, hresult, Finding.moveOn]

theorem warning?_moveDown (n k : Nat) (v : Verdict) :
    (v.moveDown n k).warning? = v.warning?.map (Finding.moveOn k) := by
  cases hresult : v.result <;>
    simp [Verdict.warning?, Verdict.moveDown, hresult, Finding.moveOn, Function.comp_def]

/-- The session on another text, whatever was found in the one before. -/
def on (s : Session) (text : String) : Session :=
  { s with source := text }

variable (s : Session) (a b : String)

theorem specs_on_append : (s.on (a ++ "\n" ++ b)).specs
    = (s.on a).specs ++ (s.on b).specs.map (SpecLine.moveDown (a.toList.count '\n' + 1)) :=
  SpecLine.ofText_append_newline a b

theorem checked_on_append : (s.on (a ++ "\n" ++ b)).run.1
    = (s.on a).run.1 ++ (s.on b).run.1.map (Checked.moveDown (a.toList.count '\n' + 1)) := by
  change (verdicts (s.on (a ++ "\n" ++ b)).specs).filterMap _ = _
  rw [specs_on_append, filterMap_verdicts_append _ _ (checked?_moveDown _ _)]
  rfl

theorem errors_on_append : (s.on (a ++ "\n" ++ b)).run.2.report.errors
    = (s.on a).run.2.report.errors ++
      (s.on b).run.2.report.errors.map (Finding.moveOn (s.on a).specs.length) := by
  change (verdicts (s.on (a ++ "\n" ++ b)).specs).filterMap _ = _
  rw [specs_on_append, filterMap_verdicts_append _ _ (error?_moveDown _ _)]
  rfl

theorem warnings_on_append : (s.on (a ++ "\n" ++ b)).run.2.report.warnings
    = (s.on a).run.2.report.warnings ++
      (s.on b).run.2.report.warnings.map (Finding.moveOn (s.on a).specs.length) := by
  change (verdicts (s.on (a ++ "\n" ++ b)).specs).filterMap _ = _
  rw [specs_on_append, filterMap_verdicts_append _ _ (warning?_moveDown _ _)]
  rfl

end Session

/-! ## Many lines -/

/-- What a line feed parts in two comes to what the lines of a text come to one by one. -/
theorem eq_flatMap_lines {α : Type} (found : List Char → List α)
    (hfound : ∀ before after, found (before ++ '\n' :: after) = found before ++ found after)
    (cs : List Char) : found cs = (lines cs).flatMap found := by
  induction hlines : lines cs generalizing cs with
  | nil => exact absurd hlines (lines_ne_nil cs)
  | cons line ls ih =>
    by_cases hmem : '\n' ∈ cs
    · -- the first line stands alone, and the others are the lines of the rest
      obtain ⟨first, rest, rfl, hfirst⟩ := List.eq_append_cons_of_mem hmem
      rw [lines_append_newline, lines_of_not_mem hfirst, List.singleton_append] at hlines
      obtain ⟨rfl, hrest⟩ := List.cons.inj hlines
      rw [hfound, ih rest hrest, List.flatMap_cons]
    · obtain ⟨rfl, rfl⟩ := List.cons.inj ((lines_of_not_mem hmem).symm.trans hlines)
      rw [List.flatMap_singleton]

namespace Session

/-- What a check of two texts finds one behind the other, a check of a text finds line by line. -/
theorem eq_flatMap_on_lines {α : Type} (s : Session) (found : Session → List α)
    (hfound : ∀ a b, found (s.on (a ++ "\n" ++ b)) = found (s.on a) ++ found (s.on b)) :
    found s = (lines s.source.toList).flatMap fun line => found (s.on (String.ofList line)) := by
  have hlines := eq_flatMap_lines (fun cs => found (s.on (String.ofList cs)))
    (fun before after => by
      have htext : String.ofList (before ++ '\n' :: after)
          = String.ofList before ++ "\n" ++ String.ofList after := by
        apply String.toList_inj.1
        simp
      rw [htext, hfound]) s.source.toList
  rwa [String.ofList_toList] at hlines

/-- The specifications that could be read and what they stand for, wherever they are. -/
def readings (checked : List Checked) : List (String × TypeExpr) :=
  checked.map fun c => (c.line.text, c.value)

/-- What was found, wherever it is. -/
def issues (fs : List Finding) : List Issue :=
  fs.map (·.issue)

theorem readings_run (s : Session) : readings s.run.1
    = (lines s.source.toList).flatMap fun line => readings (s.on (String.ofList line)).run.1 := by
  refine s.eq_flatMap_on_lines (fun s => readings s.run.1) fun a b => ?_
  simp only [checked_on_append, readings, List.map_append, List.map_map]
  rfl

theorem errors_run (s : Session) : issues s.run.2.report.errors
    = (lines s.source.toList).flatMap fun line =>
      issues (s.on (String.ofList line)).run.2.report.errors := by
  refine s.eq_flatMap_on_lines (fun s => issues s.run.2.report.errors) fun a b => ?_
  simp only [errors_on_append, issues, List.map_append, List.map_map]
  rfl

theorem warnings_run (s : Session) : issues s.run.2.report.warnings
    = (lines s.source.toList).flatMap fun line =>
      issues (s.on (String.ofList line)).run.2.report.warnings := by
  refine s.eq_flatMap_on_lines (fun s => issues s.run.2.report.warnings) fun a b => ?_
  simp only [warnings_on_append, issues, List.map_append, List.map_map]
  rfl

/-- `run` on `a ++ "\n" ++ b` gives what `run` on `a` gives, followed by what `run` on `b` gives:
    `moveDown` counts the lines of `b` on by those of `a`, and `Finding.moveOn` its files by the
    `specs` of `a`. In particular the readings and the issues of a text are those of its lines,
    taken one after the other. -/
theorem run_append_newline (s : Session) (a b : String) :
    (s.on (a ++ "\n" ++ b)).run.1
        = (s.on a).run.1 ++ (s.on b).run.1.map (Checked.moveDown (a.toList.count '\n' + 1)) ∧
      (s.on (a ++ "\n" ++ b)).run.2.report.errors
        = (s.on a).run.2.report.errors ++
          (s.on b).run.2.report.errors.map (Finding.moveOn (s.on a).specs.length) ∧
      (s.on (a ++ "\n" ++ b)).run.2.report.warnings
        = (s.on a).run.2.report.warnings ++
          (s.on b).run.2.report.warnings.map (Finding.moveOn (s.on a).specs.length) ∧
      (s.on (a ++ "\n" ++ b)).specs
        = (s.on a).specs ++ (s.on b).specs.map (SpecLine.moveDown (a.toList.count '\n' + 1)) ∧
      readings s.run.1
        = (lines s.source.toList).flatMap (fun line =>
          readings (s.on (String.ofList line)).run.1) ∧
      issues s.run.2.report.errors
        = (lines s.source.toList).flatMap (fun line =>
          issues (s.on (String.ofList line)).run.2.report.errors) ∧
      issues s.run.2.report.warnings
        = (lines s.source.toList).flatMap (fun line =>
          issues (s.on (String.ofList line)).run.2.report.warnings) :=
  ⟨s.checked_on_append a b, s.errors_on_append a b, s.warnings_on_append a b,
    s.specs_on_append a b, s.readings_run, s.errors_run, s.warnings_run⟩

end Session

end TypeNotation
