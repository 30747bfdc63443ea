import Mathlib.Data.List.TakeWhile
import TypeNotation.Proofs.Lexeme.Layout
import TypeNotation.Proofs.Lexeme.Scan

set_option autoImplicit false

/-! # The longest token

A text of its own prescribes what token it is: `Token.Proper` says which texts are tokens of which
kind, without scanning anything. Of all the proper tokens that begin at a place, `Token.first?`
takes the longest one. -/

namespace TypeNotation

namespace Token

/-- The characters that are signs of their own kind when they stand alone. -/
def signChars : List Char :=
  ['[', ']', '(', ')', '{', '}', ',', ':', '|', '*']

/-- A token whose text is one of its kind: an identifier is a word, and a character that has no
    meaning is neither a blank nor part of a word nor a sign. -/
def Proper : Token → Prop
  | identifier text => IsWord text
  | other text =>
    ∃ c, text = String.singleton c ∧ isBlank c = false ∧ isWordChar c = false ∧ c ∉ signChars
  | _ => True

variable {t u : Token} {c : Char} {cs rest after : List Char}

theorem ofChar_of_not_mem (h : c ∉ signChars) : ofChar c = other (String.singleton c) := by
  unfold ofChar
  split <;> first | rfl | exact absurd (by decide) h

theorem proper_ofChar (hblank : isBlank c = false) (hword : isWordChar c = false) :
    (ofChar c).Proper := by
  by_cases h : c ∈ signChars
  · simp only [signChars, List.mem_cons, List.not_mem_nil, or_false] at h
    rcases h with rfl | rfl | rfl | rfl | rfl | rfl | rfl | rfl | rfl | rfl <;> exact trivial
  · rw [ofChar_of_not_mem h]
    exact ⟨c, rfl, hblank, hword, h⟩

/-- What is read where no blank stands is of the kind that its text prescribes. -/
theorem proper_of_first? (h : first? cs = some (t, rest))
    (hblank : ∀ c ∈ cs.head?, isBlank c = false) : t.Proper := by
  cases t with
  | identifier text => exact isWord_of_first? h
  | other text =>
    unfold first? at h
    split at h
    · cases h
    · cases h
    · cases h
    · cases h
    · next c cs _ _ _ =>
      split at h
      · cases h
      · next hword =>
        simp only [Option.some.injEq, Prod.mk.injEq] at h
        rw [← h.1]
        exact proper_ofChar (hblank c rfl) (by simpa using hword)
  | _ => trivial

theorem Proper.first?_text (h : t.Proper) : first? t.text.toList = some (t, []) := by
  cases t with
  | identifier word =>
    have hfirst := first?_of_isWord h endsWord_nil
    rwa [List.append_nil] at hfirst
  | other sign =>
    obtain ⟨c, rfl, -, hword, hsign⟩ := h
    simp [text, first?, hword, ofChar_of_not_mem hsign]
  | _ => rfl

/-- A text prescribes no more than one kind of token. -/
theorem Proper.eq_of_text (ht : t.Proper) (hu : u.Proper) (h : t.text = u.text) : t = u := by
  have hfirst := ht.first?_text
  rw [h, hu.first?_text] at hfirst
  cases hfirst
  rfl

/-- A proper token begins with a character that is no blank. -/
theorem Proper.exists_text_eq (h : t.Proper) :
    ∃ c cs, t.text.toList = c :: cs ∧ isBlank c = false := by
  cases t with
  | identifier word =>
    obtain ⟨c, cs, htext, hc, -⟩ := IsWord.exists_cons h
    exact ⟨c, cs, htext, isBlank_eq_false_of_isWordChar hc⟩
  | other sign =>
    obtain ⟨c, rfl, hblank, -⟩ := h
    exact ⟨c, [], by simp [text], hblank⟩
  | _ => exact ⟨_, _, rfl, rfl⟩

/-- No proper token that begins at a place is longer than the one that is read there. -/
theorem Proper.prefix_of_first? (ht : t.Proper)
    (h : first? (t.text.toList ++ after) = some (u, rest)) :
    t.text.toList <+: u.text.toList := by
  have hpos : 1 ≤ u.text.toList.length := List.length_pos_iff.2 (text_ne_empty_of_first? h)
  have hu : u.text.toList <+: t.text.toList ++ after := ⟨rest, text_append_of_first? h⟩
  refine List.prefix_of_prefix_length_le (List.prefix_append _ _) hu ?_
  cases t with
  | identifier word =>
    obtain ⟨c, cs, hword, hc, hcs⟩ := IsWord.exists_cons ht
    change first? (word.toList ++ after) = some (u, rest) at h
    rw [hword, List.cons_append, first?_of_isWordChar hc, List.takeWhile_append_of_pos hcs] at h
    cases h
    simp [text, hword]
  | other sign =>
    obtain ⟨c, rfl, -⟩ := ht
    have hone : (other (String.singleton c)).text.toList.length = 1 := by simp [text]
    rwa [hone]
  | ellipsis => cases h; exact Nat.le_refl _
  | doubleColon => cases h; exact Nat.le_refl _
  | arrow => cases h; exact Nat.le_refl _
  | _ => exact hpos

/-- A proper token is read where it stands if no longer one begins there. -/
theorem Proper.first?_append (ht : t.Proper)
    (hlongest : ∀ (u : Token) (rest : List Char), u.Proper →
      t.text.toList ++ after = u.text.toList ++ rest →
        byteLength u.text.toList ≤ byteLength t.text.toList) :
    first? (t.text.toList ++ after) = some (t, after) := by
  obtain ⟨c, cs, hcs, hblank⟩ := ht.exists_text_eq
  cases hfirst : first? (t.text.toList ++ after) with
  | none =>
    have hnil := eq_nil_of_first? hfirst
    rw [hcs] at hnil
    cases hnil
  | some first =>
    obtain ⟨u, rest⟩ := first
    have hu : u.Proper := by
      refine proper_of_first? hfirst ?_
      rw [hcs]
      rintro _ ⟨⟩
      exact hblank
    have heq := text_append_of_first? hfirst
    -- neither of the two is longer than the other
    obtain ⟨more, hmore⟩ := ht.prefix_of_first? hfirst
    have hle := hlongest u rest hu heq.symm
    rw [← hmore, byteLength_append] at hle
    obtain rfl : more = [] := byteLength_eq_zero_iff.1 (by omega)
    rw [List.append_nil] at hmore
    rw [← hmore, List.append_right_inj] at heq
    rw [hu.eq_of_text ht (String.toList_injective hmore.symm), heq]

theorem Proper.isBlank_eq_false (h : t.Proper) : ∀ c ∈ t.text.toList, isBlank c = false := by
  have hall : t.text.toList.all (!isBlank ·) = true := by
    cases t with
    | identifier word =>
      refine List.all_eq_true.2 fun c hc => ?_
      have hword := List.all_eq_true.1 (And.right h) c hc
      rw [isBlank_eq_false_of_isWordChar hword]
      rfl
    | other sign =>
      obtain ⟨d, rfl, hblank, -⟩ := h
      simp [text, hblank]
    | _ => rfl
  intro c hc
  simpa using List.all_eq_true.1 hall c hc

/-- A token that is read in front of some text is also read if that text goes on with a blank. -/
theorem Proper.first?_append_of_isBlank (ht : t.Proper) {cs : List Char}
    (h : first? (t.text.toList ++ rest) = some (t, rest)) (hcs : ∀ c ∈ cs.head?, isBlank c = true) :
    first? (t.text.toList ++ (rest ++ cs)) = some (t, rest ++ cs) := by
  refine ht.first?_append fun u more hu heq => ?_
  rw [← List.append_assoc] at heq
  rcases List.append_eq_append_iff.1 heq with ⟨between, hu', hcs'⟩ | ⟨between, hrest, -⟩
  · -- a longer token would have the blank in it
    have hnil : between = [] := by
      rcases between with _ | ⟨c, between⟩
      · rfl
      · have hblank := hu.isBlank_eq_false c (by simp [hu'])
        rw [hcs c (by simp [hcs'])] at hblank
        cases hblank
    rw [hnil, List.append_nil] at hu'
    have hread : first? (u.text.toList ++ []) = some (t, rest) := by
      rw [List.append_nil, hu', h]
    exact byteLength_le_of_prefix (hu.prefix_of_first? hread)
  · -- a token that ends in front of the blank begins without it as well
    rw [hrest] at h
    exact byteLength_le_of_prefix (hu.prefix_of_first? h)

/-- In front of a blank, and at the end of a text, a proper token is read whatever it is. -/
theorem Proper.first?_append_blank (ht : t.Proper) (hrest : ∀ c ∈ rest.head?, isBlank c = true) :
    first? (t.text.toList ++ rest) = some (t, rest) := by
  have hfirst : first? (t.text.toList ++ []) = some (t, []) := by
    rw [List.append_nil, ht.first?_text]
  exact ht.first?_append_of_isBlank hfirst hrest

end Token

/-! ## What a scanner takes -/

theorem isBlank_head?_dropWhile (cs : List Char) :
    ∀ c ∈ (cs.dropWhile isBlank).head?, isBlank c = false := by
  intro c hc
  have hhead := List.head?_dropWhile_not isBlank cs
  rwa [Option.mem_def.1 hc] at hhead

namespace Scanner

variable {s s' : Scanner} {l : Lexeme}

/-- A scanner passes over all blanks in front of it and takes the token that is read behind them. -/
theorem next?_eq_some_iff :
    s.next? = some (l, s') ↔
      ∃ blanks, AllBlank blanks ∧ s.rest = blanks ++ (l.token.text.toList ++ s'.rest) ∧
        Token.first? (l.token.text.toList ++ s'.rest) = some (l.token, s'.rest) ∧
        l.token.Proper ∧ l.span.start = s.offset + byteLength blanks ∧
        l.span.stop = l.span.start + byteLength l.token.text.toList ∧ s'.offset = l.span.stop := by
  constructor
  · intro h
    unfold next? at h
    split at h
    · cases h
    · next t rest hfirst =>
      cases h
      refine ⟨s.rest.takeWhile isBlank, List.all_eq_true.1 List.all_takeWhile, ?_, ?_,
        Token.proper_of_first? hfirst (isBlank_head?_dropWhile _), rfl, rfl, rfl⟩
      · rw [Token.text_append_of_first? hfirst, List.takeWhile_append_dropWhile]
      · rw [Token.text_append_of_first? hfirst, hfirst]
  · rintro ⟨blanks, hblanks, hrest, hfirst, hproper, hstart, hstop, hoffset⟩
    obtain ⟨c, cs, htext, hc⟩ := hproper.exists_text_eq
    have hends : (l.token.text.toList ++ s'.rest).takeWhile isBlank = [] ∧
        (l.token.text.toList ++ s'.rest).dropWhile isBlank = l.token.text.toList ++ s'.rest := by
      simp [htext, hc]
    have htake : s.rest.takeWhile isBlank = blanks := by
      rw [hrest, List.takeWhile_append_of_pos hblanks, hends.1, List.append_nil]
    have hdrop : s.rest.dropWhile isBlank = l.token.text.toList ++ s'.rest := by
      rw [hrest, List.dropWhile_append_of_pos hblanks, hends.2]
    obtain ⟨t, start, stop⟩ := l
    obtain ⟨offset, rest⟩ := s'
    simp only at hstart hstop hoffset
    subst hstart hstop hoffset
    simp only [next?, hdrop, htake, hfirst]

theorem next?_eq_none_iff : s.next? = none ↔ AllBlank s.rest := by
  constructor
  · exact allBlank_of_next?
  · intro h
    have hdrop : s.rest.dropWhile isBlank = [] := List.dropWhile_eq_nil_iff.2 h
    rw [next?, hdrop]
    rfl

theorem toList_of_next?_eq_some (h : s.next? = some (l, s')) : s.toList = l :: s'.toList := by
  rw [toList]
  split
  · next hnone => cases h.symm.trans hnone
  · next hsome =>
    cases h.symm.trans hsome
    rfl

theorem toList_of_next?_eq_none (h : s.next? = none) : s.toList = [] := by
  rw [toList]
  split
  · rfl
  · next hsome => cases h.symm.trans hsome

end Scanner

end TypeNotation
