import Mathlib.Data.List.Basic
import Mathlib.Data.List.TakeWhile
import TypeNotation.Basic

set_option autoImplicit false

/-! # Lines and their ends

`IsLine` and `Trims` say in terms of the text alone which line has which number and what is left of
it when the spaces at its ends are dropped. `lines` gives exactly the lines of a text by number, and
`trim` exactly what is left of one. -/

namespace TypeNotation

variable {cs line : List Char} {n : Nat}

/-! ## Lines -/

/-- A part of a text without a line feed in it is its line of some number, from 1 on, if it reaches
    from one line feed, or the beginning, to the next, or the end. -/
def IsLine (cs : List Char) (number : Nat) (line : List Char) : Prop :=
  ∃ before after, cs = before ++ (line ++ after) ∧ '\n' ∉ line ∧
    (∀ c ∈ before.getLast?, c = '\n') ∧ (∀ c ∈ after.head?, c = '\n') ∧
    number = before.count '\n' + 1

theorem lines_of_not_mem (h : '\n' ∉ line) : lines line = [line] := by
  induction line with
  | nil => rfl
  | cons c line ih =>
    rw [List.mem_cons, not_or] at h
    rw [lines, if_neg (Ne.symm h.1), ih h.2]

/-- A line feed parts the lines in front of it from those behind it. -/
theorem lines_append_newline (before after : List Char) :
    lines (before ++ '\n' :: after) = lines before ++ lines after := by
  induction before with
  | nil => simp [lines]
  | cons c before ih =>
    rw [List.cons_append, lines, lines, ih]
    by_cases hc : c = '\n'
    · rw [if_pos hc, if_pos hc, List.cons_append]
    · rw [if_neg hc, if_neg hc]
      cases hlines : lines before with
      | nil => exact absurd hlines (lines_ne_nil before)
      | cons line rest => simp

theorem length_lines (cs : List Char) : (lines cs).length = cs.count '\n' + 1 := by
  induction cs with
  | nil => rfl
  | cons c cs ih =>
    rw [lines, List.count_cons]
    by_cases hc : c = '\n'
    · rw [if_pos hc, List.length_cons, ih]
      simp [hc]
    · rw [if_neg hc]
      cases hlines : lines cs with
      | nil => exact absurd hlines (lines_ne_nil cs)
      | cons line rest =>
        rw [hlines, List.length_cons] at ih
        simp [hc, ih]

theorem isLine_of_getElem?_lines (h : (lines cs)[n]? = some line) : IsLine cs (n + 1) line := by
  -- the first line feed, if there is one, parts the first line from the others
  induction n generalizing cs with
  | zero =>
    by_cases hmem : '\n' ∈ cs
    · obtain ⟨first, rest, rfl, hfirst⟩ := List.eq_append_cons_of_mem hmem
      rw [lines_append_newline, lines_of_not_mem hfirst] at h
      obtain rfl : first = line := by simpa using h
      exact ⟨[], '\n' :: rest, rfl, hfirst, nofun, by simp, rfl⟩
    · rw [lines_of_not_mem hmem] at h
      obtain rfl : cs = line := by simpa using h
      exact ⟨[], [], by simp, hmem, nofun, nofun, rfl⟩
  | succ n ih =>
    by_cases hmem : '\n' ∈ cs
    · obtain ⟨first, rest, rfl, hfirst⟩ := List.eq_append_cons_of_mem hmem
      rw [lines_append_newline, lines_of_not_mem hfirst, List.singleton_append,
        List.getElem?_cons_succ] at h
      obtain ⟨before, after, rfl, hline, hbefore, hafter, hn⟩ := ih h
      refine ⟨first ++ '\n' :: before, after, by simp, hline, ?_, hafter, ?_⟩
      · intro c hc
        cases before with
        | nil => simpa using hc.symm
        | cons d before => exact hbefore c (by simpa using hc)
      · rw [List.count_append, List.count_eq_zero_of_not_mem hfirst, List.count_cons_self]
        omega
    · rw [lines_of_not_mem hmem] at h
      simp at h

theorem getElem?_lines_of_isLine (h : IsLine cs (n + 1) line) : (lines cs)[n]? = some line := by
  obtain ⟨before, after, rfl, hline, hbefore, hafter, hn⟩ := h
  have hfirst : (lines (line ++ after))[0]? = some line := by
    cases after with
    | nil => rw [List.append_nil, lines_of_not_mem hline, List.getElem?_cons_zero]
    | cons c after =>
      obtain rfl : c = '\n' := hafter c rfl
      rw [lines_append_newline, lines_of_not_mem hline, List.singleton_append,
        List.getElem?_cons_zero]
  rcases List.eq_nil_or_concat before with rfl | ⟨init, c, rfl⟩
  · obtain rfl : n = 0 := by simpa using hn
    exact hfirst
  · obtain rfl : c = '\n' := hbefore c (by simp)
    have hlength : (lines init).length = n := by
      rw [length_lines]
      simpa using hn.symm
    rw [List.concat_eq_append, List.append_assoc, List.singleton_append, lines_append_newline,
      ← hlength,
      List.getElem?_append_right (Nat.le_refl _), Nat.sub_self]
    exact hfirst

theorem getElem?_lines_iff : (lines cs)[n]? = some line ↔ IsLine cs (n + 1) line :=
  ⟨isLine_of_getElem?_lines, getElem?_lines_of_isLine⟩

theorem newline_not_mem_of_mem_lines (h : line ∈ lines cs) : '\n' ∉ line := by
  obtain ⟨n, hn⟩ := List.getElem?_of_mem h
  obtain ⟨before, after, -, hline, -⟩ := isLine_of_getElem?_lines hn
  exact hline

/-- Lines that each end with a line feed, and the empty one behind the last. -/
theorem lines_flatMap_newline {ls : List (List Char)} (h : ∀ line ∈ ls, '\n' ∉ line) :
    lines (ls.flatMap (· ++ ['\n'])) = ls ++ [[]] := by
  induction ls with
  | nil => rfl
  | cons line ls ih =>
    rw [List.forall_mem_cons] at h
    rw [List.flatMap_cons, List.append_assoc, List.singleton_append, lines_append_newline,
      lines_of_not_mem h.1, ih h.2, List.singleton_append, List.cons_append]

theorem flatMap_lines (cs : List Char) : (lines cs).flatMap (· ++ ['\n']) = cs ++ ['\n'] := by
  induction cs with
  | nil => rfl
  | cons c cs ih =>
    rw [lines]
    by_cases hc : c = '\n'
    · rw [if_pos hc, List.flatMap_cons, ih, hc]
      rfl
    · rw [if_neg hc]
      cases hlines : lines cs with
      | nil => exact absurd hlines (lines_ne_nil cs)
      | cons line rest =>
        rw [hlines] at ih
        exact congrArg (c :: ·) ih

theorem lines_intercalate_newline {ls : List (List Char)} (hne : ls ≠ [])
    (h : ∀ line ∈ ls, '\n' ∉ line) : lines (['\n'].intercalate ls) = ls := by
  induction ls with
  | nil => exact absurd rfl hne
  | cons line ls ih =>
    rw [List.forall_mem_cons] at h
    cases ls with
    | nil => rw [List.intercalate_singleton, lines_of_not_mem h.1]
    | cons next ls =>
      rw [List.intercalate_cons_cons, List.append_assoc, List.singleton_append,
        lines_append_newline, lines_of_not_mem h.1, ih (List.cons_ne_nil _ _) h.2,
        List.singleton_append]

/-! ## The ends of a line -/

/-- What is left of a line when the spaces at both ends are dropped. -/
def Trims (line part : List Char) : Prop :=
  ∃ front back, line = front ++ (part ++ back) ∧ (∀ c ∈ front, isSpace c = true) ∧
    (∀ c ∈ back, isSpace c = true) ∧ (∀ c ∈ part.head?, isSpace c = false) ∧
    ∀ c ∈ part.getLast?, isSpace c = false

theorem trims_trim (cs : List Char) : Trims cs (trim cs) := by
  have hdrop : ∀ (ds : List Char), ∀ c ∈ (ds.dropWhile isSpace).head?, isSpace c = false := by
    intro ds c hc
    have hhead := List.head?_dropWhile_not isSpace ds
    rwa [Option.mem_def.1 hc] at hhead
  have hparts : cs.dropWhile isSpace
      = trim cs ++ ((cs.dropWhile isSpace).reverse.takeWhile isSpace).reverse := by
    rw [trim, ← List.reverse_append, List.takeWhile_append_dropWhile, List.reverse_reverse]
  refine ⟨cs.takeWhile isSpace, ((cs.dropWhile isSpace).reverse.takeWhile isSpace).reverse, ?_,
    List.all_eq_true.1 List.all_takeWhile, ?_, ?_, ?_⟩
  · rw [← hparts, List.takeWhile_append_dropWhile]
  · intro c hc
    rw [List.mem_reverse] at hc
    exact List.all_eq_true.1 List.all_takeWhile c hc
  · intro c hc
    refine hdrop cs c ?_
    rw [hparts, List.head?_append_of_ne_nil _ (List.ne_nil_of_mem (List.mem_of_mem_head? hc))]
    exact hc
  · intro c hc
    rw [trim, List.getLast?_reverse] at hc
    exact hdrop _ c hc

theorem trim_eq_iff {part : List Char} : trim line = part ↔ Trims line part := by
  constructor
  · rintro rfl
    exact trims_trim line
  · rintro ⟨front, back, rfl, hfront, hback, hhead, hlast⟩
    rw [trim, List.dropWhile_append_of_pos hfront]
    cases part with
    | nil =>
      rw [List.nil_append, List.dropWhile_eq_nil_iff.2 hback]
      rfl
    | cons c part =>
      have hback' : ∀ d ∈ back.reverse, isSpace d = true := by
        intro d hd
        exact hback d (List.mem_reverse.1 hd)
      have hstop : (c :: part).reverse.dropWhile isSpace = (c :: part).reverse := by
        rcases List.eq_nil_or_concat (c :: part) with hnil | ⟨init, d, hconcat⟩
        · cases hnil
        · rw [hconcat] at hlast ⊢
          have hd : isSpace d = false := hlast d (by simp)
          simp [hd]
      rw [List.cons_append, List.dropWhile_cons_of_neg (by simp [hhead c rfl]),
        ← List.cons_append, List.reverse_append, List.dropWhile_append_of_pos hback', hstop,
        List.reverse_reverse]

end TypeNotation
