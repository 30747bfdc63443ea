import TypeNotation.Proofs.Text.Lines
import TypeNotation.Session

set_option autoImplicit false

/-! # The specifications of a text

A text holds a specification on each line of which something is left when the spaces at its ends are
dropped, unless that begins with `#`. The specifications are listed in the order of their lines. -/

namespace TypeNotation.SpecLine

variable {x : SpecLine} {text : String} {ls : List (List Char)} {number : Nat}

theorem holdsSpec_iff {cs : List Char} : holdsSpec cs = true ↔ cs ≠ [] ∧ cs.head? ≠ some '#' := by
  cases cs with
  | nil => simp [holdsSpec]
  | cons c cs => simp [holdsSpec]

theorem ofLines_cons (number : Nat) (line : List Char) (ls : List (List Char)) :
    ofLines number (line :: ls)
      = (if holdsSpec (trim line) then [⟨number, String.ofList (trim line)⟩] else [])
        ++ ofLines (number + 1) ls := by
  rw [ofLines]
  split <;> rfl

theorem mem_ofLines_iff :
    x ∈ ofLines number ls ↔
      ∃ n line, ls[n]? = some line ∧ x.number = number + n ∧ x.text.toList = trim line ∧
        holdsSpec (trim line) = true := by
  induction ls generalizing number with
  | nil => simp [ofLines]
  | cons line ls ih =>
    have hfirst : (x ∈ if holdsSpec (trim line) then [⟨number, String.ofList (trim line)⟩] else [])
        ↔ x.number = number ∧ x.text.toList = trim line ∧ holdsSpec (trim line) = true := by
      obtain ⟨n, t⟩ := x
      by_cases h : holdsSpec (trim line) = true
      · rw [if_pos h, List.mem_singleton, SpecLine.mk.injEq, ← String.toList_inj,
          String.toList_ofList]
        simp [h]
      · simp [h]
    rw [ofLines_cons, List.mem_append, hfirst, ih]
    constructor
    · rintro (⟨hnumber, htext, hspec⟩ | ⟨n, line', hline, hnumber, htext, hspec⟩)
      · exact ⟨0, line, rfl, hnumber, htext, hspec⟩
      · exact ⟨n + 1, line', hline, by omega, htext, hspec⟩
    · rintro ⟨n, line', hline, hnumber, htext, hspec⟩
      cases n with
      | zero =>
        obtain rfl : line = line' := by simpa using hline
        exact Or.inl ⟨hnumber, htext, hspec⟩
      | succ n => exact Or.inr ⟨n, line', by simpa using hline, by omega, htext, hspec⟩

theorem pairwise_ofLines (number : Nat) (ls : List (List Char)) :
    (ofLines number ls).Pairwise fun x y => x.number < y.number := by
  induction ls generalizing number with
  | nil => exact .nil
  | cons line ls ih =>
    rw [ofLines_cons]
    split
    · refine .cons (fun y hy => ?_) (ih (number + 1))
      obtain ⟨n, -, -, hnumber, -⟩ := mem_ofLines_iff.1 hy
      simp only
      omega
    · exact ih (number + 1)

/-- What a text says of one of its specifications: its line has that number, its text is what is
    left of the line without the spaces at the ends, and that is neither empty nor a comment. -/
theorem mem_ofText_iff :
    x ∈ ofText text ↔
      ∃ line, IsLine text.toList x.number line ∧ Trims line x.text.toList ∧ x.text ≠ "" ∧
        x.text.toList.head? ≠ some '#' := by
  rw [ofText, mem_ofLines_iff]
  constructor
  · rintro ⟨n, line, hline, hnumber, htext, hspec⟩
    rw [← htext, holdsSpec_iff] at hspec
    rw [getElem?_lines_iff, Nat.add_comm, ← hnumber] at hline
    exact ⟨line, hline, trim_eq_iff.1 htext.symm, fun h => hspec.1 (String.toList_eq_nil_iff.2 h),
      hspec.2⟩
  · rintro ⟨line, hline, htrims, hne, hhead⟩
    have htext := (trim_eq_iff.2 htrims).symm
    obtain ⟨n, hn⟩ : ∃ n, x.number = n + 1 := by
      obtain ⟨before, after, htext, hmem, hbefore, hafter, hnumber⟩ := hline
      exact ⟨_, hnumber⟩
    refine ⟨n, line, ?_, by omega, htext, ?_⟩
    · rw [getElem?_lines_iff, ← hn]
      exact hline
    · rw [← htext, holdsSpec_iff]
      exact ⟨fun h => hne (String.toList_eq_nil_iff.1 h), hhead⟩

end TypeNotation.SpecLine
