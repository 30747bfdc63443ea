import Mathlib.Data.List.Induction
import TypeNotation.TypeExpr

set_option autoImplicit false

/-! # What stands before an element

Two rules of the notation look back: a variant counts only if no bare variant before it bears its
name, and a key of a record stands where it first occurs. Both are said here without a running
account, as a choice among the elements of a list by what stands before each of them. The functions
that do keep such an account, `TypeExpr.dropCovered` and `Field.gather`, give the same lists. -/

namespace TypeNotation

/-- The elements of a list that pass a test with what stands before them. -/
def keepBy {α : Type} (p : List α → α → Bool) (l : List α) : List α :=
  (l.zipIdx.filter fun (a, i) => p (l.take i) a).map Prod.fst

section KeepBy

variable {α : Type} (p : List α → α → Bool)

theorem keepBy_append_singleton (l : List α) (a : α) :
    keepBy p (l ++ [a]) = keepBy p l ++ if p l a then [a] else [] := by
  have hbefore : l.zipIdx.filter (fun (b, i) => p ((l ++ [a]).take i) b)
      = l.zipIdx.filter fun (b, i) => p (l.take i) b := by
    apply List.filter_congr
    rintro ⟨b, i⟩ hb
    have hi : i < l.length := by simpa using List.snd_lt_of_mem_zipIdx hb
    show p ((l ++ [a]).take i) b = p (l.take i) b
    rw [List.take_append_of_le_length (Nat.le_of_lt hi)]
  simp only [keepBy, List.zipIdx_append, List.filter_append, List.map_append, hbefore]
  cases hp : p l a <;> simp [hp]

theorem mem_of_mem_keepBy {l : List α} {a : α} (h : a ∈ keepBy p l) : a ∈ l := by
  obtain ⟨⟨b, i⟩, hb, rfl⟩ := List.mem_map.1 h
  exact List.fst_mem_of_mem_zipIdx (List.mem_filter.1 hb).1

end KeepBy

/-! ## Variants that a bare name covers -/

/-- A bare variant covers the variants of its name. -/
def Variant.covers (b v : Variant) : Bool :=
  b.isBare && b.name == v.name

theorem Variant.covers_iff {b v : Variant} :
    b.covers v = true ↔ b.isBare = true ∧ b.name = v.name := by
  simp [covers]

theorem Variant.covers_trans {b u v : Variant} (hbu : b.covers u = true)
    (huv : u.covers v = true) : b.covers v = true := by
  rw [covers_iff] at *
  exact ⟨hbu.1, hbu.2.trans huv.2⟩

namespace TypeExpr

/-- The variants that no variant before them covers. -/
def uncovered (of : TypeExpr) : TypeExpr :=
  keepBy (fun before v => !before.any (·.covers v)) of

@[simp]
theorem uncovered_nil : uncovered [] = [] := rfl

theorem uncovered_append_singleton (of : TypeExpr) (v : Variant) :
    uncovered (of ++ [v]) = uncovered of ++ if of.any (·.covers v) then [] else [v] := by
  rw [uncovered, keepBy_append_singleton]
  cases of.any (·.covers v) <;> rfl

theorem mem_of_mem_uncovered {of : TypeExpr} {v : Variant} (h : v ∈ uncovered of) : v ∈ of :=
  mem_of_mem_keepBy _ h

/-- Nothing stands before the first variant, so it is never left out. -/
theorem head?_uncovered (of : TypeExpr) : (uncovered of).head? = of.head? := by
  induction of using List.reverseRecOn with
  | nil => rfl
  | append_singleton rest v ih =>
    rw [uncovered_append_singleton, List.head?_append, List.head?_append, ih]
    cases rest with
    | nil => rfl
    | cons u rest => rfl

/-- Once the last variant is read, the account of names says no more than the variants before it. -/
theorem dropCovered_append_singleton (seen : List String) (of : TypeExpr) (v : Variant) :
    dropCovered seen (of ++ [v]) = dropCovered seen of ++
      if (∃ name ∈ seen, v.name = some name) ∨ of.any (·.covers v) then [] else [v] := by
  induction of generalizing seen with
  | nil =>
    cases hname : v.name with
    | none => simp [dropCovered, hname]
    | some name => by_cases hseen : name ∈ seen <;> simp [dropCovered, hname, hseen]
  | cons u rest ih =>
    cases hname : u.name with
    | none =>
      have hcovers : u.covers v = false := by simp [Variant.covers, Variant.isBare, hname]
      simp [dropCovered, hname, ih, hcovers]
    | some name =>
      have hcovers : u.covers v = true ↔ u.isBare = true ∧ v.name = some name := by
        rw [Variant.covers_iff, hname, @eq_comm _ (some name)]
      simp only [List.cons_append, dropCovered, hname]
      -- if the name of `u` has been seen, what `u` covers is dropped already
      by_cases hseen : name ∈ seen
      · have hiff : (∃ name ∈ seen, v.name = some name) ∨ rest.any (·.covers v) = true ↔
            (∃ name ∈ seen, v.name = some name) ∨ (u :: rest).any (·.covers v) = true := by
          rw [List.any_cons, Bool.or_eq_true, hcovers]
          constructor
          · exact Or.imp_right Or.inr
          · rintro (h | ⟨-, h⟩ | h)
            · exact Or.inl h
            · exact Or.inl ⟨name, hseen, h⟩
            · exact Or.inr h
        simp only [hseen, if_true, ih, hiff]
      · have hiff : (∃ name' ∈ if u.isBare then name :: seen else seen, v.name = some name') ∨
            rest.any (·.covers v) = true ↔
            (∃ name ∈ seen, v.name = some name) ∨ (u :: rest).any (·.covers v) = true := by
          rw [List.any_cons, Bool.or_eq_true, hcovers]
          by_cases hbare : u.isBare = true
          · simp [hbare, or_assoc, or_left_comm]
          · simp [hbare]
        simp only [hseen, if_false, ih, hiff, List.cons_append]

theorem dropCovered_eq_uncovered (of : TypeExpr) : dropCovered [] of = uncovered of := by
  induction of using List.reverseRecOn with
  | nil => rfl
  | append_singleton rest v ih =>
    rw [dropCovered_append_singleton, uncovered_append_singleton, ih]
    simp

/-! ## What is left covers as much as before -/

theorem any_covers_uncovered (of : TypeExpr) (v : Variant) :
    (uncovered of).any (·.covers v) = of.any (·.covers v) := by
  induction of using List.reverseRecOn with
  | nil => rfl
  | append_singleton rest u ih =>
    rw [uncovered_append_singleton]
    -- if `u` is left out, what covers `u` covers all that `u` covers
    by_cases hu : rest.any (·.covers u) = true
    · rw [if_pos hu, List.append_nil, ih, List.any_append]
      cases huv : u.covers v with
      | false => simp [huv]
      | true =>
        obtain ⟨b, hb, hbu⟩ := List.any_eq_true.1 hu
        have hv : rest.any (·.covers v) = true :=
          List.any_eq_true.2 ⟨b, hb, Variant.covers_trans hbu huv⟩
        rw [hv, Bool.true_or]
    · rw [if_neg hu, List.any_append, List.any_append, ih]

theorem uncovered_uncovered (of : TypeExpr) : uncovered (uncovered of) = uncovered of := by
  induction of using List.reverseRecOn with
  | nil => rfl
  | append_singleton rest v ih =>
    rw [uncovered_append_singleton]
    by_cases hv : rest.any (·.covers v) = true
    · rw [if_pos hv, List.append_nil, ih]
    · rw [if_neg hv, uncovered_append_singleton, ih, any_covers_uncovered, if_neg hv]

end TypeExpr

end TypeNotation
