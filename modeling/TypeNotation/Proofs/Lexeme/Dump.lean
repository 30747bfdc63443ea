import TypeNotation.Lexeme
import TypeNotation.Proofs.Text.Lines
import TypeNotation.Proofs.Text.Quoted

set_option autoImplicit false

/-! # What the readable list of lexemes tells

The list has one line for each lexeme, and each line tells the token and the place of its lexeme,
also where the text of a token looks like the end of one line and the beginning of another. A line
can be read from left to right: the kind of the token is a run of letters, its text ends with a
quote, and the two offsets are runs of digits. -/

namespace TypeNotation

/-! ## Tokens -/

namespace Token

/-- The kinds of tokens that have only one text. -/
def signKinds : List (String × Token) :=
  [("Ellipsis", ellipsis), ("DoubleColon", doubleColon), ("Arrow", arrow),
   ("LeftBracket", leftBracket), ("RightBracket", rightBracket), ("LeftParen", leftParen),
   ("RightParen", rightParen), ("LeftBrace", leftBrace), ("RightBrace", rightBrace),
   ("Comma", comma), ("Colon", colon), ("Pipe", pipe), ("Star", star)]

/-- The kinds of tokens that leave the text open. -/
def textKinds : List (String × (String → Token)) :=
  [("Identifier", identifier), ("Other", other)]

/-- A token is described by its kind, with its text in parentheses where the kind leaves it open. -/
inductive Describes : Token → List Char → Prop
  | sign {kind : String} {t : Token} (h : (kind, t) ∈ signKinds) : Describes t kind.toList
  | text {kind : String} {ofText : String → Token} (h : (kind, ofText) ∈ textKinds)
      (text : String) :
      Describes (ofText text) (kind.toList ++ '(' :: ((quoted text).toList ++ [')']))

theorem describes_describe (t : Token) : Describes t t.describe.toList := by
  cases t with
  | identifier text =>
    have hkind : ("Identifier", identifier) ∈ textKinds := by simp [textKinds]
    have htext : (identifier text).describe = "Identifier(" ++ quoted text ++ ")" := rfl
    simpa [htext] using Describes.text hkind text
  | other text =>
    have hkind : ("Other", other) ∈ textKinds := by simp [textKinds]
    have htext : (other text).describe = "Other(" ++ quoted text ++ ")" := rfl
    simpa [htext] using Describes.text hkind text
  | _ => exact .sign (by simp [signKinds, describe])

theorem isAlpha_of_mem_signKinds {kind : String} {t : Token} (h : (kind, t) ∈ signKinds) :
    ∀ c ∈ kind.toList, c.isAlpha = true := by
  have hall : (signKinds.all fun p => p.1.toList.all Char.isAlpha) = true := by decide
  exact List.all_eq_true.1 (List.all_eq_true.1 hall _ h)

theorem isAlpha_of_mem_textKinds {kind : String} {ofText : String → Token}
    (h : (kind, ofText) ∈ textKinds) : ∀ c ∈ kind.toList, c.isAlpha = true := by
  have hall : (textKinds.all fun p => p.1.toList.all Char.isAlpha) = true := by decide
  exact List.all_eq_true.1 (List.all_eq_true.1 hall _ h)

theorem eq_of_mem_signKinds {kind : String} {t u : Token} (ht : (kind, t) ∈ signKinds)
    (hu : (kind, u) ∈ signKinds) : t = u := by
  have hall : ∀ p ∈ signKinds, ∀ q ∈ signKinds, p.1 = q.1 → p.2 = q.2 := by decide
  exact hall _ ht _ hu rfl

theorem eq_of_mem_textKinds {kind : String} {ofText ofText' : String → Token}
    (h : (kind, ofText) ∈ textKinds) (h' : (kind, ofText') ∈ textKinds) : ofText = ofText' := by
  simp only [textKinds, List.mem_cons, Prod.mk.injEq, List.not_mem_nil, or_false] at h h'
  rcases h with ⟨rfl, rfl⟩ | ⟨rfl, rfl⟩
  · exact (h'.resolve_right (by simp)).2.symm
  · exact (h'.resolve_left (by simp)).2.symm

theorem newline_not_mem_of_isAlpha {kind : String} (h : ∀ c ∈ kind.toList, c.isAlpha = true) :
    '\n' ∉ kind.toList :=
  fun hnewline => absurd (h _ hnewline) (by decide)

namespace Describes

variable {t u : Token} {cs ds x y : List Char}

theorem newline_not_mem (h : Describes t cs) : '\n' ∉ cs := by
  cases h with
  | sign h => exact newline_not_mem_of_isAlpha (isAlpha_of_mem_signKinds h)
  | text h text =>
    have hkind := newline_not_mem_of_isAlpha (isAlpha_of_mem_textKinds h)
    have hquoted := newline_not_mem_quoted text
    simp only [List.mem_append, List.mem_cons, hkind, hquoted]
    decide

/-- A space behind a token shows where its description ends. -/
theorem append_space_inj (ht : Describes t cs) (hu : Describes u ds)
    (h : cs ++ ' ' :: x = ds ++ ' ' :: y) : t = u ∧ x = y := by
  -- the letters of both kinds end at the same place, before a space or a parenthesis
  cases ht with
  | sign ht =>
    have hkind := isAlpha_of_mem_signKinds ht
    cases hu with
    | sign hu =>
      obtain ⟨hkinds, -, hrest⟩ :=
        append_cons_inj hkind (isAlpha_of_mem_signKinds hu) (by decide) (by decide) h
      obtain rfl := String.toList_inj.1 hkinds
      exact ⟨eq_of_mem_signKinds ht hu, hrest⟩
    | text hu text =>
      simp only [List.append_assoc, List.cons_append] at h
      obtain ⟨-, hsign, -⟩ :=
        append_cons_inj hkind (isAlpha_of_mem_textKinds hu) (by decide) (by decide) h
      exact absurd hsign (by decide)
  | text ht text =>
    have hkind := isAlpha_of_mem_textKinds ht
    simp only [List.append_assoc, List.cons_append] at h
    cases hu with
    | sign hu =>
      obtain ⟨-, hsign, -⟩ :=
        append_cons_inj hkind (isAlpha_of_mem_signKinds hu) (by decide) (by decide) h
      exact absurd hsign (by decide)
    | text hu text' =>
      simp only [List.append_assoc, List.cons_append] at h
      obtain ⟨hkinds, -, hrest⟩ :=
        append_cons_inj hkind (isAlpha_of_mem_textKinds hu) (by decide) (by decide) h
      obtain rfl := String.toList_inj.1 hkinds
      obtain ⟨rfl, hclose⟩ := quoted_append_inj hrest
      refine ⟨congrFun (eq_of_mem_textKinds ht hu) text, ?_⟩
      exact (List.cons.inj (List.cons.inj hclose).2).2

end Describes

end Token

/-! ## Lexemes -/

theorem toDigits_ten_inj {n m : Nat} (h : Nat.toDigits 10 n = Nat.toDigits 10 m) : n = m := by
  have hvalue := congrArg (Nat.ofDigitChars 10 · 0) h
  rwa [Nat.ofDigitChars_toDigits (by decide) (by decide),
    Nat.ofDigitChars_toDigits (by decide) (by decide)] at hvalue

theorem isDigit_of_mem_toDigits_ten {n : Nat} : ∀ c ∈ Nat.toDigits 10 n, c.isDigit = true :=
  fun _ => Nat.isDigit_of_mem_toDigits (by decide) (by decide)

namespace Lexeme

theorem toList_describe (l : Lexeme) :
    l.describe.toList
      = l.token.describe.toList ++ ' ' :: '@' :: ' ' ::
        (Nat.toDigits 10 l.span.start ++ '.' :: '.' :: Nat.toDigits 10 l.span.stop) := by
  have hparts : l.describe
      = l.token.describe ++ " @ " ++ toString l.span.start ++ ".." ++ toString l.span.stop := rfl
  simp [hparts]

theorem newline_not_mem_describe (l : Lexeme) : '\n' ∉ l.describe.toList := by
  have hoffset : ∀ n : Nat, '\n' ∉ Nat.toDigits 10 n :=
    fun n hnewline => absurd (isDigit_of_mem_toDigits_ten _ hnewline) (by decide)
  have htoken := (Token.describes_describe l.token).newline_not_mem
  rw [toList_describe]
  simp [htoken, hoffset]

theorem describe_injective : Function.Injective describe := by
  intro l l' h
  have hlist := congrArg String.toList h
  rw [toList_describe, toList_describe] at hlist
  obtain ⟨htoken, hplace⟩ :=
    (Token.describes_describe l.token).append_space_inj (Token.describes_describe l'.token) hlist
  have hspan := (List.cons.inj (List.cons.inj hplace).2).2
  obtain ⟨hstart, -, hstop⟩ := append_cons_inj isDigit_of_mem_toDigits_ten
    isDigit_of_mem_toDigits_ten (by decide) (by decide) hspan
  obtain ⟨token, start, stop⟩ := l
  obtain ⟨token', start', stop'⟩ := l'
  obtain rfl : token = token' := htoken
  obtain rfl : start = start' := toDigits_ten_inj hstart
  obtain rfl : stop = stop' := toDigits_ten_inj (List.cons.inj hstop).2
  rfl

end Lexeme

/-! ## Lists of lexemes -/

theorem toList_dump (ls : List Lexeme) :
    (dump ls).toList = ['\n'].intercalate (ls.map (·.describe.toList)) := by
  rw [dump, String.toList_intercalate, List.map_map]
  rfl

theorem lines_dump {ls : List Lexeme} (h : ls ≠ []) :
    lines (dump ls).toList = ls.map (·.describe.toList) := by
  rw [toList_dump]
  refine lines_intercalate_newline (by simpa using h) fun line hline => ?_
  obtain ⟨l, -, rfl⟩ := List.mem_map.1 hline
  exact l.newline_not_mem_describe

theorem dump_ne_empty {ls : List Lexeme} (h : ls ≠ []) : dump ls ≠ "" := by
  intro hempty
  have hlines := lines_dump h
  rw [hempty] at hlines
  have hmem : [] ∈ ls.map (·.describe.toList) := by
    rw [← hlines]
    exact List.mem_singleton_self _
  obtain ⟨l, -, hl⟩ := List.mem_map.1 hmem
  simp [Lexeme.toList_describe] at hl

theorem dump_injective : Function.Injective dump := by
  intro ls ls' h
  by_cases hls : ls = []
  · subst hls
    by_contra hls'
    exact dump_ne_empty (Ne.symm hls') h.symm
  · by_cases hls' : ls' = []
    · subst hls'
      exact absurd h (dump_ne_empty hls)
    · have hlines := lines_dump hls
      rw [h, lines_dump hls'] at hlines
      have hinj : Function.Injective fun l : Lexeme => l.describe.toList :=
        fun _ _ hl => Lexeme.describe_injective (String.toList_inj.1 hl)
      exact (List.map_injective_iff.2 hinj hlines).symm

/-- `dump` is injective on all lists of lexemes, with any texts and spans. The `lines` of `dump ls`
    are `Lexeme.describe` of each lexeme unless `ls` is empty, and none of these has a line feed in
    it. -/
theorem dump_eq_iff_and_lines_dump (ls ls' : List Lexeme) :
    (dump ls = dump ls' ↔ ls = ls') ∧
      (ls ≠ [] → lines (dump ls).toList = ls.map (·.describe.toList) ∧
        ∀ l ∈ ls, '\n' ∉ l.describe.toList) :=
  ⟨dump_injective.eq_iff, fun h => ⟨lines_dump h, fun l _ => l.newline_not_mem_describe⟩⟩

/-- The instance at a text that looks like the rest of a line and a further line, and one that looks
    like an escape, with spans that are reversed and huge. -/
theorem lines_dump_lookalikes :
    let ls : List Lexeme :=
      [⟨.other "A\") @ 0..1\nStar", 9, 2⟩,
        ⟨.identifier "\\u\x7ba\x7d\x07", 0, 18446744073709551615⟩]
    ls ≠ [] ∧ (lines (dump ls).toList).length = 2 ∧
      lines (dump ls).toList
        = ["Other(\"A\\\") @ 0..1\\nStar\") @ 9..2".toList,
          "Identifier(\"\\\\u\x7ba\x7d\\u\x7b7\x7d\") @ 0..18446744073709551615".toList] := by
  intro ls
  have hlines := ((dump_eq_iff_and_lines_dump ls ls).2 (by decide)).1
  exact ⟨by decide, by rw [hlines]; rfl, hlines.trans (by decide)⟩

end TypeNotation
