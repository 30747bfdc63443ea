import Mathlib.Data.List.TakeWhile
import TypeNotation.Text.Category

set_option autoImplicit false

/-! # Quoted text is read in one way

A quoted text fits on one line, and whatever stands behind it, there is one place where it can end
and one text that it can quote. `Escapes` lists the three ways in which a character is quoted. No
quoted character is the beginning of another one, so a text that begins with some of them begins
with no others. -/

namespace TypeNotation

/-- Two parts are the same if each of them ends at the first character that is not like its own. -/
theorem append_cons_inj {p : Char → Bool} {front front' back back' : List Char} {c c' : Char}
    (hfront : ∀ d ∈ front, p d = true) (hfront' : ∀ d ∈ front', p d = true) (hc : p c = false)
    (hc' : p c' = false) (h : front ++ c :: back = front' ++ c' :: back') :
    front = front' ∧ c = c' ∧ back = back' := by
  have htake := congrArg (List.takeWhile p) h
  rw [List.takeWhile_append_of_pos hfront, List.takeWhile_append_of_pos hfront',
    List.takeWhile_cons_of_neg (by simp [hc]), List.takeWhile_cons_of_neg (by simp [hc']),
    List.append_nil, List.append_nil] at htake
  subst htake
  exact ⟨rfl, List.cons.inj (List.append_cancel_left h)⟩

namespace Quoted

/-! ## Numbers -/

theorem hex_of_lt {n : Nat} (h : n < 16) : hex n = [Nat.digitChar n] :=
  Nat.toDigits_of_lt_base h

theorem hex_of_le {n : Nat} (h : 16 ≤ n) : hex n = hex (n / 16) ++ [Nat.digitChar (n % 16)] :=
  Nat.toDigits_of_base_le (by decide) h

theorem exists_of_mem_hex {n : Nat} {c : Char} (h : c ∈ hex n) :
    ∃ d < 16, c = Nat.digitChar d := by
  induction n using Nat.strongRecOn with
  | ind n ih =>
    by_cases hn : n < 16
    · rw [hex_of_lt hn, List.mem_singleton] at h
      exact ⟨n, hn, h⟩
    · rw [hex_of_le (Nat.le_of_not_lt hn), List.mem_append, List.mem_singleton] at h
      rcases h with h | h
      · exact ih (n / 16) (by omega) h
      · exact ⟨n % 16, Nat.mod_lt n (by decide), h⟩

theorem not_mem_hex {n : Nat} {c : Char} (h : ∀ d < 16, Nat.digitChar d ≠ c) : c ∉ hex n := by
  intro hc
  obtain ⟨d, hd, rfl⟩ := exists_of_mem_hex hc
  exact h d hd rfl

theorem digitChar_inj {d e : Nat} (hd : d < 16) (he : e < 16)
    (h : Nat.digitChar d = Nat.digitChar e) : d = e := by
  have hall : ∀ d < 16, ∀ e < 16, Nat.digitChar d = Nat.digitChar e → d = e := by decide
  exact hall d hd e he h

/-- A number of one digit is not one with further digits before the last. -/
theorem hex_ne_of_lt {n m : Nat} (hn : n < 16) (hm : 16 ≤ m) : hex n ≠ hex m := by
  intro h
  rw [hex_of_lt hn, hex_of_le hm] at h
  have hlength := congrArg List.length h
  have hpos : 0 < (hex (m / 16)).length := List.length_pos_iff.2 Nat.toDigits_ne_nil
  rw [List.length_append, List.length_singleton, List.length_singleton] at hlength
  omega

theorem hex_injective : Function.Injective hex := by
  intro n
  -- the last digits are the same, and so are the numbers that the digits before them make
  induction n using Nat.strongRecOn with
  | ind n ih =>
    intro m h
    by_cases hn : n < 16 <;> by_cases hm : m < 16
    · rw [hex_of_lt hn, hex_of_lt hm] at h
      exact digitChar_inj hn hm (List.singleton_inj.1 h)
    · exact absurd h (hex_ne_of_lt hn (Nat.le_of_not_lt hm))
    · exact absurd h.symm (hex_ne_of_lt hm (Nat.le_of_not_lt hn))
    · rw [hex_of_le (Nat.le_of_not_lt hn), hex_of_le (Nat.le_of_not_lt hm)] at h
      obtain ⟨hfront, hlast⟩ := List.append_inj' h rfl
      have hdiv : n / 16 = m / 16 := ih (n / 16) (by omega) hfront
      have hmod : n % 16 = m % 16 :=
        digitChar_inj (Nat.mod_lt n (by decide)) (Nat.mod_lt m (by decide))
          (List.singleton_inj.1 hlast)
      omega

/-- The closing brace shows where a number ends. -/
theorem hex_append_inj {n m : Nat} {x y : List Char}
    (h : hex n ++ '}' :: x = hex m ++ '}' :: y) : n = m ∧ x = y := by
  have hbrace : ∀ k, ∀ c ∈ hex k, (c != '}') = true := by
    intro k c hc
    exact bne_iff_ne.2 (ne_of_mem_of_not_mem hc (not_mem_hex (by decide)))
  obtain ⟨hhex, -, hrest⟩ := append_cons_inj (hbrace n) (hbrace m) rfl rfl h
  exact ⟨hex_injective hhex, hrest⟩

/-! ## Characters -/

/-- The characters that are quoted by a backslash and a letter or sign, each with what stands behind
    its backslash. -/
def shortForms : List (Char × Char) :=
  [('\x00', '0'), ('\t', 't'), ('\r', 'r'), ('\n', 'n'), ('"', '"'), ('\\', '\\')]

/-- The ways in which a character is quoted. -/
inductive Escapes : Char → List Char → Prop
  | itself {c : Char} (h : ∀ d, (c, d) ∉ shortForms) : Escapes c [c]
  | short {c d : Char} (h : (c, d) ∈ shortForms) : Escapes c ['\\', d]
  | number (c : Char) : Escapes c ('\\' :: 'u' :: '{' :: (hex c.toNat ++ ['}']))

theorem escapes_escape (c : Char) : Escapes c (escape c) := by
  unfold escape
  split
  case h_7 hnull htab hreturn hnewline hquote hslash =>
    split
    · refine .itself fun d hd => ?_
      simp only [shortForms, List.mem_cons, Prod.mk.injEq, List.not_mem_nil, or_false] at hd
      rcases hd with ⟨rfl, -⟩ | ⟨rfl, -⟩ | ⟨rfl, -⟩ | ⟨rfl, -⟩ | ⟨rfl, -⟩ | ⟨rfl, -⟩ <;>
        contradiction
    · exact .number _
  all_goals exact .short (by decide)

theorem eq_of_mem_shortForms {c d e : Char} (hc : (c, e) ∈ shortForms)
    (hd : (d, e) ∈ shortForms) : c = d := by
  have hall : ∀ p ∈ shortForms, ∀ q ∈ shortForms, p.2 = q.2 → p.1 = q.1 := by decide
  exact hall _ hc _ hd rfl

namespace Escapes

variable {c d : Char} {cs ds x y : List Char}

theorem head_ne_quote (h : Escapes c cs) : (cs ++ x).head? ≠ some '"' := by
  cases h with
  | itself h =>
    intro hquote
    obtain rfl : c = '"' := by simpa using hquote
    exact h '"' (by decide)
  | short h => simp
  | number => simp

theorem newline_not_mem (h : Escapes c cs) : '\n' ∉ cs := by
  cases h with
  | itself h =>
    intro hnewline
    obtain rfl : '\n' = c := by simpa using hnewline
    exact h 'n' (by decide)
  | short h =>
    have hall : ∀ p ∈ shortForms, p.2 ≠ '\n' := by decide
    have hd := hall _ h
    simpa using hd.symm
  | number =>
    have hhex : '\n' ∉ hex c.toNat := not_mem_hex (by decide)
    simp [hhex]

/-- A character that is quoted by itself and a quoted character with a backslash are not the
    beginning of the same text. -/
theorem itself_ne_backslash (h : ∀ e, (c, e) ∉ shortForms) : c :: x ≠ '\\' :: y := by
  intro heq
  obtain ⟨rfl, -⟩ := List.cons.inj heq
  exact h '\\' (by decide)

theorem short_ne_number {e : Char} (h : (c, e) ∈ shortForms) : e ≠ 'u' := by
  have hall : ∀ p ∈ shortForms, p.2 ≠ 'u' := by decide
  exact hall _ h

theorem append_inj (hc : Escapes c cs) (hd : Escapes d ds) (h : cs ++ x = ds ++ y) :
    c = d ∧ x = y := by
  cases hc with
  | itself hc =>
    cases hd with
    | itself hd => exact List.cons.inj h
    | short hd => exact absurd h (itself_ne_backslash hc)
    | number => exact absurd h (itself_ne_backslash hc)
  | short hc =>
    cases hd with
    | itself hd => exact absurd h.symm (itself_ne_backslash hd)
    | short hd =>
      obtain ⟨rfl, hrest⟩ := List.cons.inj (List.cons.inj h).2
      exact ⟨eq_of_mem_shortForms hc hd, hrest⟩
    | number => exact absurd (List.cons.inj (List.cons.inj h).2).1 (short_ne_number hc)
  | number =>
    cases hd with
    | itself hd => exact absurd h.symm (itself_ne_backslash hd)
    | short hd => exact absurd (List.cons.inj (List.cons.inj h).2).1.symm (short_ne_number hd)
    | number =>
      obtain ⟨hnumber, hrest⟩ := hex_append_inj (by simpa using h)
      exact ⟨Char.toNat_inj.1 hnumber, hrest⟩

end Escapes

/-! ## Texts -/

/-- The closing quote shows where a quoted text ends, since no quoted character begins with one. -/
theorem flatMap_escape_append_inj {cs ds x y : List Char}
    (h : cs.flatMap escape ++ '"' :: x = ds.flatMap escape ++ '"' :: y) : cs = ds ∧ x = y := by
  induction cs generalizing ds with
  | nil =>
    cases ds with
    | nil => exact ⟨rfl, (List.cons.inj h).2⟩
    | cons d ds =>
      rw [List.flatMap_nil, List.nil_append, List.flatMap_cons, List.append_assoc] at h
      exact absurd (congrArg List.head? h).symm (escapes_escape d).head_ne_quote
  | cons c cs ih =>
    rw [List.flatMap_cons, List.append_assoc] at h
    cases ds with
    | nil => exact absurd (congrArg List.head? h) (escapes_escape c).head_ne_quote
    | cons d ds =>
      rw [List.flatMap_cons, List.append_assoc] at h
      obtain ⟨rfl, hrest⟩ := (escapes_escape c).append_inj (escapes_escape d) h
      obtain ⟨rfl, hxy⟩ := ih hrest
      exact ⟨rfl, hxy⟩

end Quoted

theorem quoted_append_inj {text text' : String} {x y : List Char}
    (h : (quoted text).toList ++ x = (quoted text').toList ++ y) : text = text' ∧ x = y := by
  have hbody : text.toList.flatMap Quoted.escape ++ '"' :: x
      = text'.toList.flatMap Quoted.escape ++ '"' :: y := by
    simpa [quoted] using h
  obtain ⟨htext, hxy⟩ := Quoted.flatMap_escape_append_inj hbody
  exact ⟨String.toList_inj.1 htext, hxy⟩

theorem newline_not_mem_quoted (text : String) : '\n' ∉ (quoted text).toList := by
  have hbody : '\n' ∉ text.toList.flatMap Quoted.escape := by
    intro h
    obtain ⟨c, -, hc⟩ := List.mem_flatMap.1 h
    exact (Quoted.escapes_escape c).newline_not_mem hc
  simp [quoted, hbody]

end TypeNotation
