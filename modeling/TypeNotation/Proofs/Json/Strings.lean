import TypeNotation.Json.Read

set_option autoImplicit false

/-! # Strings that are written and read

What `stringChars` writes for a string is read as that string, whatever its characters are and
whatever follows. -/

namespace TypeNotation.Json

/-! ## Escaped characters -/

theorem hexDigit?_digitChar {d : Nat} (h : d < 16) : hexDigit? (Nat.digitChar d) = some d := by
  have hall : ∀ i : Fin 16, hexDigit? (Nat.digitChar i) = some i.val := by decide
  exact hall ⟨d, h⟩

/-- A character of two hexadecimal digits is read from the four that are written for it. -/
theorem readUnicode_digits {c : Char} (h : c.toNat < 256) (rest : List Char) :
    readUnicode ('0' :: '0' :: Nat.digitChar (c.toNat / 16) :: Nat.digitChar (c.toNat % 16) :: rest)
      = .ok (c, rest) := by
  have hzero : hexDigit? '0' = some 0 := by decide
  have hhigh : hexDigit? (Nat.digitChar (c.toNat / 16)) = some (c.toNat / 16) :=
    hexDigit?_digitChar (by omega)
  have hlow : hexDigit? (Nat.digitChar (c.toNat % 16)) = some (c.toNat % 16) :=
    hexDigit?_digitChar (by omega)
  have hnumber : hexNumber? '0' '0' (Nat.digitChar (c.toNat / 16)) (Nat.digitChar (c.toNat % 16))
      = some c.toNat := by
    have hsum : c.toNat / 16 * 16 + c.toNat % 16 = c.toNat := Nat.div_add_mod' _ _
    simp [hexNumber?, hzero, hhigh, hlow, hsum]
  have hnotLow : isLowSurrogate c.toNat = false := by
    simp only [isLowSurrogate, Bool.and_eq_false_iff, decide_eq_false_iff_not]
    omega
  have hnotHigh : isHighSurrogate c.toNat = false := by
    simp only [isHighSurrogate, Bool.and_eq_false_iff, decide_eq_false_iff_not]
    omega
  simp [readUnicode, readHex, hnumber, hnotLow, hnotHigh]

/-- What is written for a character: the character itself, or a backslash and something that is
    read as the character. -/
theorem escape_cases (c : Char) :
    (escape c = [c] ∧ c ≠ '"' ∧ c ≠ '\\' ∧ ¬ c.toNat < 0x20)
      ∨ ∃ cs, escape c = '\\' :: cs ∧ ∀ rest, readEscape (cs ++ rest) = .ok (c, rest) := by
  unfold escape
  split
  case h_8 c hquote hbackslash _ _ _ _ _ =>
    split
    · next h =>
      right
      refine ⟨_, rfl, fun rest => ?_⟩
      rw [List.cons_append, readEscape]
      exact readUnicode_digits (by omega) rest
    · next h => exact .inl ⟨rfl, hquote, hbackslash, h⟩
  all_goals exact .inr ⟨_, rfl, fun rest => rfl⟩

/-! ## Strings -/

/-- `readChars` at an escape without the bookkeeping of its termination. -/
theorem readChars_backslash {c : Char} {rest rest' text last : List Char}
    (hc : readEscape rest = .ok (c, rest')) (h : readChars rest' = .ok (text, last)) :
    readChars ('\\' :: rest) = .ok (c :: text, last) := by
  rw [readChars]
  split
  · next hc' => rw [hc] at hc'; cases hc'
  · next hc' =>
    rw [hc] at hc'
    cases hc'
    rw [h]

theorem readChars_escape (c : Char) {rest text last : List Char}
    (h : readChars rest = .ok (text, last)) :
    readChars (escape c ++ rest) = .ok (c :: text, last) := by
  obtain ⟨hc, hquote, hbackslash, hcontrol⟩ | ⟨cs, hcs, hread⟩ := escape_cases c
  · rw [hc, List.singleton_append, readChars]
    · rw [if_neg hcontrol, h]
    · exact hquote
    · exact hbackslash
  · rw [hcs, List.cons_append]
    exact readChars_backslash (hread rest) h

theorem readChars_flatMap_escape (text rest : List Char) :
    readChars (text.flatMap escape ++ '"' :: rest) = .ok (text, rest) := by
  induction text with
  | nil => simp [readChars]
  | cons c text ih =>
    rw [List.flatMap_cons, List.append_assoc]
    exact readChars_escape c ih

theorem stringChars_append (s : String) (rest : List Char) :
    stringChars s ++ rest = '"' :: (s.toList.flatMap escape ++ '"' :: rest) := by
  simp [stringChars]

end TypeNotation.Json
