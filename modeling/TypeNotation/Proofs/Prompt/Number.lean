import Mathlib
import TypeNotation.Prompt

set_option autoImplicit false

/-! # The number in a prompt

`Shows text n` says what it is for a text to be the number `n`, by reading the text: it is `n` to
`String.toInt?`, it consists of digits, and it is no longer than it has to be. Exactly one text
does so, the one that `threeDigits` writes (`shows_iff`). The number of a prompt is counted in 32
bits; `Counts` says which number that is after some specifications. -/

namespace TypeNotation.Prompt

/-! ## Digits -/

section

variable {cs ds : List Char} {text : String}

theorem toNat_of_isDigit {c : Char} (h : c.isDigit = true) : 48 ≤ c.toNat ∧ c.toNat ≤ 57 :=
  Char.isDigit_iff_toNat.1 h

/-- Two runs of digits of one length that spell the same number are the same. -/
theorem ofDigitChars_inj (hcs : ∀ c ∈ cs, c.isDigit = true) (hds : ∀ d ∈ ds, d.isDigit = true)
    (hlength : cs.length = ds.length)
    (h : Nat.ofDigitChars 10 cs 0 = Nat.ofDigitChars 10 ds 0) : cs = ds := by
  induction cs using List.reverseRecOn generalizing ds with
  | nil => exact (List.length_eq_zero_iff.1 hlength.symm).symm
  | append_singleton cs c ih =>
    rcases List.eq_nil_or_concat ds with rfl | ⟨ds, d, rfl⟩
    · simp at hlength
    · rw [List.concat_eq_append] at hds hlength h ⊢
      simp only [Nat.ofDigitChars_append, Nat.ofDigitChars_cons, Nat.ofDigitChars_nil] at h
      have hc := toNat_of_isDigit (hcs c (by simp))
      have hd := toNat_of_isDigit (hds d (by simp))
      have hzero : '0'.toNat = 48 := rfl
      obtain rfl : c = d := Char.toNat_inj.1 (by omega)
      have hfront : cs = ds := by
        refine ih (fun c hc => hcs c (List.mem_append_left _ hc))
          (fun d hd => hds d (List.mem_append_left _ hd)) ?_ (by omega)
        simpa using hlength
      rw [hfront]

theorem toNat?_of_isDigit (hne : text ≠ "") (h : ∀ c ∈ text.toList, c.isDigit = true) :
    text.toNat? = some (Nat.ofDigitChars 10 text.toList 0) := by
  have hplain : text.toList.filter (· != '_') = text.toList := by
    rw [List.filter_eq_self]
    intro c hc
    rw [bne_iff_ne]
    rintro rfl
    exact absurd (h _ hc) (by decide)
  rw [String.toNat?_eq_some_ofDigitChars (String.isNat_of_isDigit hne h), hplain]

theorem isDigit_of_mem_padded {k n : Nat} {c : Char}
    (h : c ∈ List.replicate k '0' ++ Nat.toDigits 10 n) : c.isDigit = true := by
  rcases List.mem_append.1 h with hzero | hdigit
  · rw [List.eq_of_mem_replicate hzero]
    rfl
  · exact Nat.isDigit_of_mem_toDigits (by decide) (by decide) hdigit

/-- Zeros in front of the digits of a number do not change what they are read as. -/
theorem toNat?_padded (k n : Nat) :
    (String.ofList (List.replicate k '0' ++ Nat.toDigits 10 n)).toNat? = some n := by
  have hne : String.ofList (List.replicate k '0' ++ Nat.toDigits 10 n) ≠ "" := by simp
  have hdigits : ∀ c ∈ (String.ofList (List.replicate k '0' ++ Nat.toDigits 10 n)).toList,
      c.isDigit = true := by
    rw [String.toList_ofList]
    exact fun c hc => isDigit_of_mem_padded hc
  rw [toNat?_of_isDigit hne hdigits, String.toList_ofList, Nat.ofDigitChars_append,
    Nat.ofDigitChars_replicate_zero, Nat.mul_zero, Nat.ofDigitChars_ten_toDigits]

end

/-! ## Showing a number -/

/-- `text` is `n` in decimal, with zeros in front up to three characters and no further. -/
structure Shows (text : String) (n : Int) : Prop where
  toInt?_eq : text.toInt? = some n
  length_eq : text.length = max 3 (toString n).length
  isDigit : ∀ c ∈ text.toList, c.isDigit = true ∨ c = '-' ∧ n < 0

theorem toList_toString (n : Int) :
    (toString n).toList = (if n < 0 then ['-'] else []) ++ Nat.toDigits 10 n.natAbs := by
  rw [Int.toString_eq_repr, Int.repr_eq_if]
  by_cases h : n < 0
  · have habs : (-n).toNat = n.natAbs := by omega
    simp [h, Int.not_le.2 h, habs]
  · have habs : n.toNat = n.natAbs := by omega
    simp [h, Int.not_lt.1 h, habs]

theorem length_toString (n : Int) :
    (toString n).length
      = (if n < 0 then ['-'] else []).length + (Nat.toDigits 10 n.natAbs).length := by
  rw [← String.length_toList, toList_toString, List.length_append]

/-- Between the sign and the digits stand as many zeros as are missing in `toString`. -/
theorem threeDigits_eq (n : Int32) :
    threeDigits n = String.ofList ((if n.toInt < 0 then ['-'] else []) ++
      (List.replicate (3 - (toString n.toInt).length) '0' ++ Nat.toDigits 10 n.toInt.natAbs)) := by
  simp only [length_toString, threeDigits, Int32.lt_iff_toInt_lt, Int32.toInt_zero]

theorem toInt?_threeDigits (n : Int32) : (threeDigits n).toInt? = some n.toInt := by
  have hread := toNat?_padded (3 - (toString n.toInt).length) n.toInt.natAbs
  rw [threeDigits_eq]
  by_cases h : n.toInt < 0
  · rw [if_pos h, String.ofList_append]
    refine String.toInt?_minus_append.trans ?_
    rw [hread, Option.map_some, Int.ofNat_natAbs_of_nonpos (Int.le_of_lt h), Int.neg_neg]
  · rw [if_neg h, List.nil_append, String.toInt?_eq_some_of_toNat?_eq_some hread,
      Int.natAbs_of_nonneg (Int.not_lt.1 h)]

theorem length_threeDigits (n : Int32) :
    (threeDigits n).length = max 3 (toString n.toInt).length := by
  have hplain := length_toString n.toInt
  rw [threeDigits_eq, ← String.length_toList, String.toList_ofList, List.length_append,
    List.length_append, List.length_replicate]
  omega

theorem isDigit_of_mem_threeDigits {n : Int32} {c : Char} (h : c ∈ (threeDigits n).toList) :
    c.isDigit = true ∨ c = '-' ∧ n.toInt < 0 := by
  rw [threeDigits_eq, String.toList_ofList] at h
  rcases List.mem_append.1 h with hsign | hdigit
  · split at hsign
    · next hneg => exact .inr ⟨List.mem_singleton.1 hsign, hneg⟩
    · cases hsign
  · exact .inl (isDigit_of_mem_padded hdigit)

theorem shows_threeDigits (n : Int32) : Shows (threeDigits n) n.toInt :=
  ⟨toInt?_threeDigits n, length_threeDigits n, fun _ => isDigit_of_mem_threeDigits⟩

/-- A text that shows a number is its sign and digits that spell its absolute value. -/
theorem Shows.exists_digits {text : String} {n : Int} (h : Shows text n) :
    ∃ digits, text.toList = (if n < 0 then ['-'] else []) ++ digits ∧
      (∀ c ∈ digits, c.isDigit = true) ∧ Nat.ofDigitChars 10 digits 0 = n.natAbs := by
  rcases String.toInt?_eq_some_iff.1 h.toInt?_eq with ⟨b, hb, rfl⟩ | ⟨rest, rfl, b, hb, rfl⟩
  · have hnonneg : ¬ (b : Int) < 0 := by omega
    have hdigits : ∀ c ∈ text.toList, c.isDigit = true :=
      fun c hc => (h.isDigit c hc).resolve_right fun hc => hnonneg hc.2
    have hne := (String.isNat_iff.1 (String.isNat_of_toNat?_eq_some hb)).1
    have hvalue := (toNat?_of_isDigit hne hdigits).symm.trans hb
    exact ⟨text.toList, by rw [if_neg hnonneg, List.nil_append], hdigits, Option.some.inj hvalue⟩
  · have hsign : -(b : Int) < 0 :=
      ((h.isDigit '-' (by simp)).resolve_left (by decide)).2
    obtain ⟨hne, hrest, -⟩ := String.isNat_iff.1 (String.isNat_of_toNat?_eq_some hb)
    have hdigits : ∀ c ∈ rest.toList, c.isDigit = true := by
      intro c hc
      rcases h.isDigit c (by simp [hc]) with hdigit | ⟨rfl, -⟩
      · exact hdigit
      · exact absurd (hrest _ hc) (by decide)
    have hvalue := (toNat?_of_isDigit hne hdigits).symm.trans hb
    refine ⟨rest.toList, by rw [if_pos hsign, String.toList_append]; rfl, hdigits, ?_⟩
    rw [Int.natAbs_neg, Int.natAbs_natCast]
    exact Option.some.inj hvalue

theorem Shows.unique {text text' : String} {n : Int} (h : Shows text n) (h' : Shows text' n) :
    text = text' := by
  obtain ⟨cs, htext, hcs, hvalue⟩ := h.exists_digits
  obtain ⟨ds, htext', hds, hvalue'⟩ := h'.exists_digits
  have hlength : text.toList.length = text'.toList.length := by
    rw [String.length_toList, String.length_toList, h.length_eq, h'.length_eq]
  rw [htext, htext', List.length_append, List.length_append, Nat.add_left_cancel_iff] at hlength
  rw [← String.toList_inj, htext, htext',
    ofDigitChars_inj hcs hds hlength (hvalue.trans hvalue'.symm)]

theorem shows_iff {text : String} {n : Int32} : Shows text n.toInt ↔ text = threeDigits n := by
  constructor
  · exact fun h => h.unique (shows_threeDigits n)
  · rintro rfl
    exact shows_threeDigits n

example : threeDigits 7 = "007" ∧ threeDigits (-7) = "-07" ∧
    threeDigits (2147483647 + 1) = "-2147483648" :=
  ⟨by decide, by decide, by decide⟩

/-! ## Counting specifications -/

/-- `shown` is the prompt behind `count` specifications: the text in it is the only one that `Shows`
    the number `1 + count` in 32 bits. That is the number `1 + count` itself as long as `count` is
    less than `2147483647`. -/
structure Counts (shown : String) (count : Nat) : Prop where
  shows_bmod : ∃ text, shown = "typespec:" ++ text ++ "> " ∧
    ∀ text', Shows text' ((1 + (count : Int)).bmod 4294967296) ↔ text' = text
  shows_of_lt : count < 2147483647 → ∃ text, shown = "typespec:" ++ text ++ "> " ∧
    ∀ text', Shows text' (1 + count) ↔ text' = text

theorem toInt_ofNat_one_add (count : Nat) :
    (Int32.ofNat (1 + count)).toInt = (1 + (count : Int)).bmod 4294967296 := by
  rw [Int32.toInt_ofNat', Int.natCast_add, Int.natCast_one]

theorem bmod_of_lt {count : Nat} (h : count < 2147483647) :
    (1 + (count : Int)).bmod 4294967296 = 1 + count :=
  Int.bmod_eq_of_le (by omega) (by omega)

theorem counts_text (count : Nat) (json : Bool) :
    Counts (⟨Int32.ofNat (1 + count), json⟩ : Prompt).text count := by
  have hwraps : ∀ text, Shows text ((1 + (count : Int)).bmod 4294967296) ↔
      text = threeDigits (Int32.ofNat (1 + count)) := by
    intro text
    rw [← toInt_ofNat_one_add, shows_iff]
  exact ⟨⟨_, rfl, hwraps⟩, fun h => ⟨_, rfl, bmod_of_lt h ▸ hwraps⟩⟩

end TypeNotation.Prompt
