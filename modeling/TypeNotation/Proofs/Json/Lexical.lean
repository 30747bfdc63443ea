import TypeNotation.Proofs.Json.Grammar
import TypeNotation.Proofs.Json.Strings

set_option autoImplicit false

/-! # Reading the smallest parts of JSON exactly

The readers of strings and numbers take off what the grammar says and nothing else. A string shows
where it ends; a number goes on as long as it can, so it is read to its end only if what follows
cannot be a part of it. -/

namespace TypeNotation.Json

variable {cs rest text : List Char}

theorem readWord_eq_ok_iff {word : List Char} :
    readWord word cs = .ok rest ↔ cs = word ++ rest := by
  fun_induction readWord word cs with
  | case1 cs => simp
  | case2 w word => simp
  | case3 w word cs ih => simpa using ih
  | case4 w word c cs hne => simp [hne]

theorem readWord_on (word rest : List Char) : readWord word (word ++ rest) = .ok rest :=
  readWord_eq_ok_iff.2 rfl

/-! ## Strings -/

theorem of_readHex {n : Nat} (h : readHex cs = .ok (n, rest)) :
    ∃ digits, cs = digits ++ rest ∧ SpellsHex digits n := by
  unfold readHex at h
  split at h
  · next a b c d back =>
    split at h
    · next n hn =>
      cases h
      exact ⟨[a, b, c, d], rfl, .mk hn⟩
    · cases h
  · cases h

theorem readHex_on {digits : List Char} {n : Nat} (h : SpellsHex digits n) (rest : List Char) :
    readHex (digits ++ rest) = .ok (n, rest) := by
  cases h with
  | mk h => simp [readHex, h]

theorem of_readUnicode {c : Char} (h : readUnicode cs = .ok (c, rest)) :
    ∃ text, cs = text ++ rest ∧ SpellsEscape ('u' :: text) c := by
  unfold readUnicode at h
  split at h
  · cases h
  next n back hhex =>
  obtain ⟨digits, rfl, hdigits⟩ := of_readHex hhex
  split at h
  · cases h
  next hlow =>
  split at h
  · next hhigh =>
    split at h
    · cases h
    next back' hword =>
    obtain rfl := readWord_eq_ok_iff.1 hword
    split at h
    · cases h
    next low back'' hhex' =>
    obtain ⟨digits', rfl, hdigits'⟩ := of_readHex hhex'
    split at h
    · next hlow' =>
      simp only [Except.ok.injEq, Prod.mk.injEq] at h
      obtain ⟨rfl, rfl⟩ := h
      exact ⟨digits ++ '\\' :: 'u' :: digits', by simp,
        .surrogates hdigits hhigh hdigits' hlow'⟩
    · cases h
  · next hhigh =>
    simp only [Except.ok.injEq, Prod.mk.injEq] at h
    obtain ⟨rfl, rfl⟩ := h
    exact ⟨digits, rfl, .unicode hdigits (Bool.eq_false_iff.2 hhigh) (Bool.eq_false_iff.2 hlow)⟩

/-- No number is both a high and a low surrogate. -/
theorem isLowSurrogate_of_isHighSurrogate {n : Nat} (h : isHighSurrogate n = true) :
    isLowSurrogate n = false := by
  simp only [isHighSurrogate, Bool.and_eq_true, decide_eq_true_eq] at h
  simp only [isLowSurrogate, Bool.and_eq_false_iff, decide_eq_false_iff_not]
  omega

theorem readUnicode_on {c : Char} (h : SpellsEscape ('u' :: text) c) (rest : List Char) :
    readUnicode (text ++ rest) = .ok (c, rest) := by
  cases h with
  | short h => cases h
  | unicode h hhigh hlow =>
    rw [readUnicode, readHex_on h]
    simp only [hhigh, hlow, Bool.false_eq_true, if_false]
  | @surrogates digits digits' high low h hhigh h' hlow =>
    have hnot := isLowSurrogate_of_isHighSurrogate hhigh
    have hword : readWord ['\\', 'u'] ('\\' :: 'u' :: (digits' ++ rest)) = .ok (digits' ++ rest) :=
      readWord_on ['\\', 'u'] _
    rw [List.append_assoc, List.cons_append, List.cons_append, readUnicode, readHex_on h]
    simp only [hhigh, hnot, hword, readHex_on h', hlow, Bool.false_eq_true, if_false, if_true]

theorem of_readEscape {c : Char} (h : readEscape cs = .ok (c, rest)) :
    ∃ text, cs = text ++ rest ∧ SpellsEscape text c := by
  unfold readEscape at h
  split at h
  · cases h
  · next back =>
    obtain ⟨text, rfl, htext⟩ := of_readUnicode h
    exact ⟨'u' :: text, rfl, htext⟩
  · next e back _ =>
    split at h
    · next d hd =>
      cases h
      exact ⟨[e], rfl, .short hd⟩
    · cases h

theorem readEscape_on {c : Char} (h : SpellsEscape text c) (rest : List Char) :
    readEscape (text ++ rest) = .ok (c, rest) := by
  cases h with
  | @short e c h =>
    rw [List.singleton_append, readEscape]
    · simp only [h]
    · rintro rfl
      cases h
  | unicode h hhigh hlow => exact readUnicode_on (.unicode h hhigh hlow) rest
  | surrogates h hhigh h' hlow => exact readUnicode_on (.surrogates h hhigh h' hlow) rest

theorem of_readChars (h : readChars cs = .ok (text, rest)) :
    ∃ inner, cs = inner ++ '"' :: rest ∧ SpellsChars inner text := by
  fun_induction readChars cs generalizing text with
  | case1 => cases h
  | case2 back =>
    cases h
    exact ⟨[], rfl, .nil⟩
  | case3 => cases h
  | case4 => cases h
  | case5 back c back' hescape _ text' back'' hread ih =>
    cases h
    obtain ⟨cs, rfl, hcs⟩ := of_readEscape hescape
    obtain ⟨inner, rfl, hinner⟩ := ih hread
    exact ⟨'\\' :: cs ++ inner, by simp, .cons (.escaped hcs) hinner⟩
  | case6 => cases h
  | case7 => cases h
  | case8 c back hquote hbackslash hcontrol text' back' hread ih =>
    cases h
    obtain ⟨inner, rfl, hinner⟩ := ih hread
    exact ⟨c :: inner, rfl, .cons (.plain hquote hbackslash (Nat.not_lt.1 hcontrol)) hinner⟩

theorem readChars_on {inner : List Char} (h : SpellsChars inner text) (rest : List Char) :
    readChars (inner ++ '"' :: rest) = .ok (text, rest) := by
  induction h with
  | nil => rw [List.nil_append, readChars]
  | @cons cs inner text c hc h ih =>
    rw [List.append_assoc]
    cases hc with
    | plain hquote hbackslash hcontrol =>
      rw [List.singleton_append, readChars]
      · rw [if_neg (Nat.not_lt.2 hcontrol), ih]
      · exact hquote
      · exact hbackslash
    | escaped hescape =>
      rw [List.cons_append]
      exact readChars_backslash (readEscape_on hescape _) ih

/-! ## Numbers -/

/-- No digit comes next. -/
def NoDigit (cs : List Char) : Prop :=
  ∀ c ∈ cs.head?, c.isDigit = false

/-- Nothing comes next that could belong to a number. -/
def EndsNumber (cs : List Char) : Prop :=
  NoDigit cs ∧ ∀ c ∈ cs.head?, c ≠ '.' ∧ c ≠ 'e' ∧ c ≠ 'E'

section

variable {digits : List Char} {negative : Bool}

theorem of_readDigits (h : readDigits cs = .ok (digits, rest)) :
    cs = digits ++ rest ∧ Digits digits := by
  unfold readDigits at h
  split at h
  · cases h
  next d ds htake =>
  cases h
  have hall : ∀ c ∈ d :: ds, c.isDigit = true := by
    rw [← htake]
    exact List.all_eq_true.1 List.all_takeWhile
  refine ⟨?_, List.cons_ne_nil _ _, hall⟩
  rw [← htake, List.takeWhile_append_dropWhile]

theorem readDigits_on (h : Digits digits) (hrest : NoDigit rest) :
    readDigits (digits ++ rest) = .ok (digits, rest) := by
  obtain ⟨hne, hall⟩ := h
  have hstop : rest.takeWhile Char.isDigit = [] ∧ rest.dropWhile Char.isDigit = rest := by
    cases rest with
    | nil => exact ⟨rfl, rfl⟩
    | cons c back =>
      have hc : c.isDigit = false := hrest c rfl
      simp [hc]
  rw [readDigits, List.takeWhile_append_of_pos hall, List.dropWhile_append_of_pos hall, hstop.1,
    hstop.2, List.append_nil]
  cases digits with
  | nil => exact absurd rfl hne
  | cons d ds => rfl

theorem of_readInteger (h : readInteger cs = .ok (digits, rest)) :
    cs = digits ++ rest ∧ Whole digits := by
  unfold readInteger at h
  split at h
  · cases h
  · next hzero =>
    obtain ⟨rfl, hdigits⟩ := of_readDigits h
    refine ⟨rfl, hdigits, ?_⟩
    intro hhead
    obtain ⟨ds, rfl⟩ := List.head?_eq_some_iff.1 hhead
    cases ds with
    | nil => rfl
    | cons d ds => exact absurd h (hzero d ds rest)

theorem readInteger_on (h : Whole digits) (hrest : NoDigit rest) :
    readInteger (digits ++ rest) = .ok (digits, rest) := by
  obtain ⟨hdigits, hzero⟩ := h
  rw [readInteger, readDigits_on hdigits hrest]
  split
  · next heq =>
    cases heq
    cases hzero rfl
  · rfl

theorem of_readFraction {fraction : List Char} (h : readFraction cs = .ok (fraction, rest)) :
    ∃ point, cs = point ++ rest ∧ SpellsFraction point fraction := by
  unfold readFraction at h
  split at h
  · next back =>
    obtain ⟨rfl, hdigits⟩ := of_readDigits h
    exact ⟨'.' :: fraction, rfl, .present hdigits⟩
  · cases h
    exact ⟨[], rfl, .absent⟩

theorem readFraction_on {point fraction : List Char} (h : SpellsFraction point fraction)
    (hrest : NoDigit rest) (hpoint : rest.head? ≠ some '.') :
    readFraction (point ++ rest) = .ok (fraction, rest) := by
  cases h with
  | absent =>
    rw [List.nil_append, readFraction]
    rintro back rfl
    exact hpoint rfl
  | present h => exact readDigits_on h hrest

theorem of_takeSign (h : takeSign cs = (negative, rest)) :
    ∃ sign, cs = sign ++ rest ∧ SpellsSign sign negative := by
  unfold takeSign at h
  split at h
  · cases h
    exact ⟨['-'], rfl, .minus⟩
  · cases h
    exact ⟨['+'], rfl, .plus⟩
  · cases h
    exact ⟨[], rfl, .absent⟩

/-- Digits do not begin with a sign. -/
theorem Digits.exists_cons (h : Digits digits) :
    ∃ d ds, digits = d :: ds ∧ d ≠ '-' ∧ d ≠ '+' := by
  obtain ⟨hne, hall⟩ := h
  cases digits with
  | nil => exact absurd rfl hne
  | cons d ds =>
    have hd := hall d List.mem_cons_self
    refine ⟨d, ds, rfl, ?_, ?_⟩
    · rintro rfl
      cases hd
    · rintro rfl
      cases hd

theorem takeSign_on {sign : List Char} (h : SpellsSign sign negative) (hdigits : Digits digits)
    (rest : List Char) : takeSign (sign ++ (digits ++ rest)) = (negative, digits ++ rest) := by
  cases h with
  | plus => rfl
  | minus => rfl
  | absent =>
    obtain ⟨d, ds, rfl, hminus, hplus⟩ := hdigits.exists_cons
    rw [List.nil_append, List.cons_append, takeSign]
    · rintro back ⟨⟩
      exact hminus rfl
    · rintro back ⟨⟩
      exact hplus rfl

theorem of_readExponent {exponent : Option (Bool × List Char)}
    (h : readExponent cs = .ok (exponent, rest)) :
    ∃ power, cs = power ++ rest ∧ SpellsExponent power exponent := by
  unfold readExponent at h
  split at h
  · cases h
    exact ⟨[], rfl, .absent⟩
  next c back =>
  split at h
  · next he =>
    rcases hsign : takeSign back with ⟨negative, back'⟩
    simp only [hsign] at h
    split at h
    · cases h
    next digits back'' hdigits =>
    cases h
    obtain ⟨sign, rfl, hs⟩ := of_takeSign hsign
    obtain ⟨rfl, hd⟩ := of_readDigits hdigits
    exact ⟨c :: (sign ++ digits), by simp, .present (by simpa using he) hs hd⟩
  · cases h
    exact ⟨[], rfl, .absent⟩

theorem readExponent_on {power : List Char} {exponent : Option (Bool × List Char)}
    (h : SpellsExponent power exponent) (hrest : EndsNumber rest) :
    readExponent (power ++ rest) = .ok (exponent, rest) := by
  cases h with
  | absent =>
    cases rest with
    | nil => rfl
    | cons c back =>
      obtain ⟨-, he, hE⟩ := hrest.2 c rfl
      rw [List.nil_append, readExponent, if_neg (by simp [he, hE])]
  | present he hsign h =>
    rw [List.cons_append, List.append_assoc, readExponent, if_pos (by simpa using he),
      takeSign_on hsign h]
    simp only [readDigits_on h hrest.1]

theorem of_takeMinus (h : takeMinus cs = (negative, rest)) :
    ∃ minus, cs = minus ++ rest ∧ SpellsMinus minus negative := by
  unfold takeMinus at h
  split at h
  · cases h
    exact ⟨['-'], rfl, .present⟩
  · cases h
    exact ⟨[], rfl, .absent⟩

theorem takeMinus_on {minus : List Char} (h : SpellsMinus minus negative) (hdigits : Digits digits)
    (rest : List Char) : takeMinus (minus ++ (digits ++ rest)) = (negative, digits ++ rest) := by
  cases h with
  | present => rfl
  | absent =>
    obtain ⟨d, ds, rfl, hminus, -⟩ := hdigits.exists_cons
    rw [List.nil_append, List.cons_append, takeMinus]
    rintro back ⟨⟩
    exact hminus rfl

end

theorem of_readNumeral {n : Numeral} (h : readNumeral cs = .ok (n, rest)) :
    ∃ text, cs = text ++ rest ∧ SpellsNumeral text n := by
  unfold readNumeral at h
  rcases hminus : takeMinus cs with ⟨negative, cs₁⟩
  obtain ⟨minus, rfl, hm⟩ := of_takeMinus hminus
  simp only [hminus] at h
  split at h
  · cases h
  next whole cs₂ hwhole =>
  obtain ⟨rfl, hw⟩ := of_readInteger hwhole
  split at h
  · cases h
  next fraction cs₃ hfraction =>
  obtain ⟨point, rfl, hf⟩ := of_readFraction hfraction
  split at h
  · cases h
  next exponent cs₄ hexponent =>
  obtain ⟨power, rfl, he⟩ := of_readExponent hexponent
  cases h
  exact ⟨minus ++ (whole ++ (point ++ power)), by simp, .mk hm hw hf he⟩

/-- An exponent is told from the digits before it and from a point. -/
theorem SpellsExponent.noDigit_append {power : List Char} {exponent : Option (Bool × List Char)}
    (h : SpellsExponent power exponent) (hrest : EndsNumber rest) :
    NoDigit (power ++ rest) ∧ (power ++ rest).head? ≠ some '.' := by
  cases h with
  | absent => exact ⟨hrest.1, fun hpoint => (hrest.2 _ hpoint).1 rfl⟩
  | present he hsign h =>
    rcases he with rfl | rfl
    · exact ⟨by simp [NoDigit], by simp⟩
    · exact ⟨by simp [NoDigit], by simp⟩

theorem SpellsFraction.noDigit_append {point fraction : List Char}
    (h : SpellsFraction point fraction) (hrest : NoDigit rest) : NoDigit (point ++ rest) := by
  cases h with
  | absent => exact hrest
  | present h => simp [NoDigit]

theorem readNumeral_on {n : Numeral} (h : SpellsNumeral text n) (hrest : EndsNumber rest) :
    readNumeral (text ++ rest) = .ok (n, rest) := by
  cases h with
  | @mk minus whole point power fraction negative exponent hminus hwhole hfraction hexponent =>
    obtain ⟨hdigit, hpoint⟩ := hexponent.noDigit_append hrest
    have htext : minus ++ (whole ++ (point ++ power)) ++ rest
        = minus ++ (whole ++ (point ++ (power ++ rest))) := by
      simp
    rw [htext, readNumeral, takeMinus_on hminus hwhole.1]
    simp only [readInteger_on hwhole (hfraction.noDigit_append hdigit),
      readFraction_on hfraction hdigit hpoint, readExponent_on hexponent hrest]

/-! ## Values without parts -/

theorem ofNumeral_eq_ok_iff {n : Numeral} {value : Json} :
    ofNumeral n = .ok value ↔ n.fits = true ∧ value = numeralValue n := by
  unfold ofNumeral numeralValue
  cases n.fits with
  | false => simp
  | true =>
    cases n.natural? with
    | none => simp [eq_comm]
    | some v => simp [eq_comm]

/-- A numeral shows by its first character that it is one. -/
theorem SpellsNumeral.exists_cons {n : Numeral} (h : SpellsNumeral text n) :
    ∃ c cs, text = c :: cs ∧ (c = '-' ∨ c.isDigit = true) := by
  cases h with
  | @mk minus whole point power fraction negative exponent hminus hwhole hfraction hexponent =>
    cases hminus with
    | present => exact ⟨'-', _, rfl, .inl rfl⟩
    | absent =>
      obtain ⟨d, ds, rfl, -⟩ := hwhole.1.exists_cons
      exact ⟨d, _, rfl, .inr (hwhole.1.2 d List.mem_cons_self)⟩

theorem ne_of_beginsNumber {c d : Char} (hc : c = '-' ∨ c.isDigit = true)
    (hd : ¬(d = '-' ∨ d.isDigit = true)) : c ≠ d := by
  rintro rfl
  exact hd hc

theorem of_readLiteral {word : List Char} {value value' : Json}
    (h : readLiteral word value cs = .ok (value', rest)) : cs = word ++ rest ∧ value' = value := by
  unfold readLiteral at h
  split at h
  · cases h
  · next hword =>
    cases h
    exact ⟨readWord_eq_ok_iff.1 hword, rfl⟩

theorem readLiteral_on (word rest : List Char) (value : Json) :
    readLiteral word value (word ++ rest) = .ok (value, rest) := by
  rw [readLiteral, readWord_on]

theorem of_readScalar {value : Json} (h : readScalar cs = .ok (value, rest)) :
    ∃ text, cs = text ++ rest ∧ SpellsScalar text value := by
  unfold readScalar at h
  split at h
  · cases h
  · obtain ⟨rfl, rfl⟩ := of_readLiteral h
    exact ⟨_, rfl, .nullWord⟩
  · obtain ⟨rfl, rfl⟩ := of_readLiteral h
    exact ⟨_, rfl, .trueWord⟩
  · obtain ⟨rfl, rfl⟩ := of_readLiteral h
    exact ⟨_, rfl, .falseWord⟩
  · split at h
    · cases h
    next text back hread =>
    cases h
    obtain ⟨inner, rfl, hinner⟩ := of_readChars hread
    exact ⟨'"' :: (inner ++ ['"']), by simp, .string (.mk hinner)⟩
  · split at h
    · split at h
      · cases h
      next n back hread =>
      split at h
      · cases h
      next value' hvalue =>
      cases h
      obtain ⟨text, heq, htext⟩ := of_readNumeral hread
      obtain ⟨hfits, rfl⟩ := ofNumeral_eq_ok_iff.1 hvalue
      exact ⟨text, heq, .number htext hfits⟩
    · cases h

theorem readScalar_string {s : String} (h : SpellsString text s) (rest : List Char) :
    readScalar (text ++ rest) = .ok (string s, rest) := by
  cases h with
  | mk h =>
    rw [List.cons_append, List.append_assoc, List.singleton_append, readScalar]
    simp only [readChars_on h]

theorem readScalar_number {n : Numeral} (h : SpellsNumeral text n) (hfits : n.fits = true)
    (hrest : EndsNumber rest) : readScalar (text ++ rest) = .ok (numeralValue n, rest) := by
  obtain ⟨c, cs, rfl, hc⟩ := h.exists_cons
  have hread := readNumeral_on h hrest
  have hvalue := ofNumeral_eq_ok_iff.2 ⟨hfits, rfl⟩
  rw [List.cons_append] at hread ⊢
  rw [readScalar]
  · rw [if_pos (by simpa using hc), hread]
    simp only [hvalue]
  · exact ne_of_beginsNumber hc (by decide)
  · exact ne_of_beginsNumber hc (by decide)
  · exact ne_of_beginsNumber hc (by decide)
  · exact ne_of_beginsNumber hc (by decide)

theorem readScalar_on {value : Json} (h : SpellsScalar text value) (hrest : EndsNumber rest) :
    readScalar (text ++ rest) = .ok (value, rest) := by
  cases h with
  | nullWord => exact readLiteral_on ['u', 'l', 'l'] rest null
  | trueWord => exact readLiteral_on ['r', 'u', 'e'] rest (bool true)
  | falseWord => exact readLiteral_on ['a', 'l', 's', 'e'] rest (bool false)
  | string h => exact readScalar_string h rest
  | number h hfits => exact readScalar_number h hfits hrest

theorem SpellsScalar.exists_cons {value : Json} (h : SpellsScalar text value) :
    ∃ c cs, text = c :: cs ∧ isRoom c = false ∧ c ≠ ']' ∧ c ≠ '[' ∧ c ≠ '{' := by
  cases h with
  | nullWord => exact ⟨'n', _, rfl, by decide⟩
  | trueWord => exact ⟨'t', _, rfl, by decide⟩
  | falseWord => exact ⟨'f', _, rfl, by decide⟩
  | string h =>
    cases h with
    | mk h => exact ⟨'"', _, rfl, by decide⟩
  | number h hfits =>
    obtain ⟨c, cs, rfl, hc⟩ := h.exists_cons
    have hroom : isRoom c = false := by
      have hspace : c ≠ ' ' := ne_of_beginsNumber hc (by decide)
      have htab : c ≠ '\t' := ne_of_beginsNumber hc (by decide)
      have hline : c ≠ '\n' := ne_of_beginsNumber hc (by decide)
      have hreturn : c ≠ '\r' := ne_of_beginsNumber hc (by decide)
      simp [isRoom, hspace, htab, hline, hreturn]
    exact ⟨c, cs, rfl, hroom, ne_of_beginsNumber hc (by decide), ne_of_beginsNumber hc (by decide),
      ne_of_beginsNumber hc (by decide)⟩

end TypeNotation.Json
