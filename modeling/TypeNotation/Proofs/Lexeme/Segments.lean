import Mathlib.Data.List.Basic
import TypeNotation.Proofs.Lexeme.Munch

set_option autoImplicit false

/-! # The one way to cut a text

`Segments` says how a text is cut without loss into the longest tokens, in terms of the text alone:
nothing but blanks is left out, each lexeme is the spelling that stands at its span, and no longer
token begins where one stands. There is exactly one such list of lexemes, and it is the one that
`lexemes` gives (`segments_iff_eq_lexemes`). -/

namespace TypeNotation

/-- A span holds the byte at an offset. -/
def Span.Holds (span : Span) (offset : Nat) : Prop :=
  span.start ≤ offset ∧ offset < span.stop

/-- A text that is cut into the longest tokens, with nothing lost but blanks. -/
structure Segments (text : String) (ls : List Lexeme) : Prop where
  start_lt_stop : ∀ l ∈ ls, l.span.start < l.span.stop
  /-- The spans follow one another, so that no two of them overlap. -/
  ordered : ls.Pairwise fun l m => l.span.stop ≤ m.span.start
  /-- Each span lies between two characters at either end and holds the spelling of its token. -/
  standsAt : ∀ l ∈ ls, StandsAt text l.span l.token.text
  /-- Each token is of the kind that its spelling prescribes. -/
  proper : ∀ l ∈ ls, l.token.Proper
  /-- A character that no span holds is a blank. -/
  isBlank_outside : ∀ (before after : List Char) (c : Char), text.toList = before ++ c :: after →
    (∀ l ∈ ls, ¬l.span.Holds (byteLength before)) → isBlank c = true
  /-- The characters next to a word are none of words. -/
  beside_word : ∀ l ∈ ls, ∀ word, l.token = .identifier word →
    ∀ before after : List Char, text.toList = before ++ (word.toList ++ after) →
      l.span.start = byteLength before →
        (∀ c ∈ before.getLast?, Token.isWordChar c = false) ∧
          ∀ c ∈ after.head?, Token.isWordChar c = false
  /-- No longer token begins where a lexeme begins. -/
  longest : ∀ l ∈ ls, ∀ (t : Token) (before after : List Char), t.Proper →
    text.toList = before ++ (t.text.toList ++ after) → l.span.start = byteLength before →
      byteLength t.text.toList ≤ byteLength l.token.text.toList

variable {text : String} {l : Lexeme} {ls front back : List Lexeme}

theorem StandsAt.exists_toList {span : Span} {part : String} (h : StandsAt text span part) :
    ∃ before after, text.toList = before ++ (part.toList ++ after) ∧
      span.start = byteLength before ∧ span.stop = span.start + byteLength part.toList := by
  obtain ⟨before, after, rfl, rfl⟩ := h
  refine ⟨before.toList, after.toList, by simp, ?_, ?_⟩
  · rw [byteLength_toList]
  · rw [byteLength_toList]

/-! ## Nothing but blanks between lexemes -/

namespace Layout

variable {offset : Nat} {cs : List Char}

theorem offset_le_start (h : Layout offset cs ls) : ∀ l ∈ ls, offset ≤ l.span.start := by
  induction h with
  | nil => simp
  | cons hblank hstart hstop h ih =>
    intro l hl
    rcases List.mem_cons.1 hl with rfl | hl
    · omega
    · have := ih l hl
      omega

theorem pairwise_le (h : Layout offset cs ls) :
    ls.Pairwise fun l m => l.span.stop ≤ m.span.start := by
  induction h with
  | nil => exact .nil
  | cons hblank hstart hstop h ih => exact .cons h.offset_le_start ih

theorem isBlank_outside (h : Layout offset cs ls) {before after : List Char} {c : Char}
    (hcs : cs = before ++ c :: after)
    (hout : ∀ l ∈ ls, ¬l.span.Holds (offset + byteLength before)) : isBlank c = true := by
  induction h generalizing before with
  | nil hblank =>
    apply hblank
    rw [hcs]
    simp
  | @cons offset blanks cs l ls hblank hstart hstop h ih =>
    have hl := hout l List.mem_cons_self
    rw [← List.append_assoc] at hcs
    by_cases hbehind : l.span.stop ≤ offset + byteLength before
    · -- the character stands behind the lexeme
      have hle : byteLength (blanks ++ l.token.text.toList) ≤ byteLength before := by
        rw [byteLength_append]
        omega
      obtain ⟨between, rfl, hcs'⟩ := exists_append_of_byteLength_le hcs hle
      have hoffset : l.span.stop + byteLength between
          = offset + byteLength (blanks ++ l.token.text.toList ++ between) := by
        rw [byteLength_append, byteLength_append]
        omega
      refine ih hcs' fun m hm => ?_
      rw [hoffset]
      exact hout m (List.mem_cons_of_mem _ hm)
    · -- it does not stand in the lexeme, so it is one of the blanks
      have hlt : byteLength before < byteLength blanks := by
        rw [Span.Holds] at hl
        omega
      rw [List.append_assoc] at hcs
      obtain ⟨between, rfl, hcs'⟩ := exists_append_of_byteLength_le hcs.symm (Nat.le_of_lt hlt)
      cases between with
      | nil => simp at hlt
      | cons d between =>
        cases hcs'
        exact hblank c (by simp)

end Layout

/-! ## No word runs on -/

/-- No word runs over the place between two parts of a text. -/
def Seam (before rest : List Char) : Prop :=
  ∀ c ∈ before.getLast?, Token.isWordChar c = true → EndsWord rest

theorem isWordChar_eq_false_of_isBlank {c : Char} (h : isBlank c = true) :
    Token.isWordChar c = false := by
  rw [← Bool.not_eq_true]
  intro hword
  rw [isBlank_eq_false_of_isWordChar hword] at h
  cases h

theorem Seam.append_blanks {before blanks rest : List Char} (h : Seam before (blanks ++ rest))
    (hblank : AllBlank blanks) : Seam (before ++ blanks) rest := by
  rcases List.eq_nil_or_concat blanks with rfl | ⟨init, b, rfl⟩
  · rwa [List.append_nil]
  · intro c hc hword
    obtain rfl : b = c := by simpa using hc
    rw [isWordChar_eq_false_of_isBlank (hblank b (by simp))] at hword
    cases hword

theorem seam_of_first? {cs rest before : List Char} {t : Token}
    (h : Token.first? cs = some (t, rest)) : Seam (before ++ t.text.toList) rest := by
  intro c hc hword
  rw [List.getLast?_append_of_ne_nil _ (Token.text_ne_empty_of_first? h)] at hc
  unfold Token.first? at h
  split at h
  · cases h
  · cases h
    cases hc
    cases hword
  · cases h
    cases hc
    cases hword
  · cases h
    cases hc
    cases hword
  · split at h
    · cases h
      intro d hd
      have hhead := List.head?_dropWhile_not Token.isWordChar ‹List Char›
      rwa [Option.mem_def.1 hd] at hhead
    · next hnot =>
      cases h
      rw [Token.text_ofChar] at hc
      obtain rfl : _ = c := by simpa using hc
      exact absurd hword hnot

/-- What follows a word that is read does not carry it on. -/
theorem Token.endsWord_of_first? {cs rest : List Char} {word : String}
    (h : first? cs = some (.identifier word, rest)) : EndsWord rest := by
  obtain ⟨c, ds, htext, hc, hds⟩ := (isWord_of_first? h).exists_cons
  have hword : ∀ d ∈ c :: ds, isWordChar d = true := List.forall_mem_cons.2 ⟨hc, hds⟩
  have hlast : ([] ++ (identifier word).text.toList).getLast?
      = some ((c :: ds).getLast (List.cons_ne_nil c ds)) := by
    rw [List.nil_append, text, htext, List.getLast?_eq_some_getLast]
  exact seam_of_first? h _ hlast (hword _ (List.getLast_mem (List.cons_ne_nil c ds)))

/-! ## Where a scanner finds a lexeme -/

theorem Scanner.exists_of_toList {s : Scanner} {before : List Char}
    (hoffset : s.offset = byteLength before) (hseam : Seam before s.rest)
    (h : s.toList = front ++ l :: back) :
    ∃ between after, s.rest = between ++ (l.token.text.toList ++ after) ∧
      l.span.start = byteLength (before ++ between) ∧ l.token.Proper ∧
      Token.first? (l.token.text.toList ++ after) = some (l.token, after) ∧
      Seam (before ++ between) (l.token.text.toList ++ after) := by
  -- the scanner moves over the lexemes in front, and no word runs over the place where it stands
  induction front generalizing s before with
  | nil =>
    cases hnext : s.next? with
    | none => simp [toList_of_next?_eq_none hnext] at h
    | some next =>
      obtain ⟨m, s'⟩ := next
      rw [toList_of_next?_eq_some hnext] at h
      cases h
      obtain ⟨blanks, hblank, hrest, hfirst, hproper, hstart, -, -⟩ := next?_eq_some_iff.1 hnext
      rw [hrest] at hseam
      refine ⟨blanks, s'.rest, hrest, ?_, hproper, hfirst, hseam.append_blanks hblank⟩
      rw [hstart, hoffset, byteLength_append]
  | cons m front ih =>
    cases hnext : s.next? with
    | none => simp [toList_of_next?_eq_none hnext] at h
    | some next =>
      obtain ⟨m, s'⟩ := next
      rw [toList_of_next?_eq_some hnext, List.cons_append, List.cons.injEq] at h
      obtain ⟨rfl, h⟩ := h
      obtain ⟨blanks, -, hrest, hfirst, -, hstart, hstop, hoffset'⟩ := next?_eq_some_iff.1 hnext
      have hbefore : s'.offset = byteLength (before ++ blanks ++ m.token.text.toList) := by
        rw [byteLength_append, byteLength_append]
        omega
      obtain ⟨between, after, hrest', hstart', hread⟩ := ih hbefore (seam_of_first? hfirst) h
      refine ⟨blanks ++ (m.token.text.toList ++ between), after, ?_, ?_, ?_⟩
      · rw [hrest, hrest']
        simp only [List.append_assoc]
      · rw [hstart']
        simp only [List.append_assoc]
      · simpa only [List.append_assoc] using hread

/-- Each lexeme of a text is read where it stands, and no word runs over that place. -/
theorem exists_of_lexemes (h : lexemes text = front ++ l :: back) :
    ∃ before after, text.toList = before ++ (l.token.text.toList ++ after) ∧
      l.span.start = byteLength before ∧ l.token.Proper ∧
      Token.first? (l.token.text.toList ++ after) = some (l.token, after) ∧
      Seam before (l.token.text.toList ++ after) := by
  have hseam : Seam [] (Scanner.ofString text).rest := by
    intro c hc
    cases hc
  obtain ⟨before, after, hrest, hread⟩ := Scanner.exists_of_toList rfl hseam h
  exact ⟨before, after, hrest, hread⟩

/-! ## The lexemes of a text segment it -/

theorem segments_lexemes (text : String) : Segments text (lexemes text) where
  start_lt_stop l hl := by
    obtain ⟨front, back, h⟩ := List.append_of_mem hl
    obtain ⟨before, after, -, hstart, hstop⟩ := (standsAt_of_lexemes h).exists_toList
    obtain ⟨-, -, -, -, hproper, -⟩ := exists_of_lexemes h
    obtain ⟨c, cs, htext, -⟩ := hproper.exists_text_eq
    have hpos := c.utf8Size_pos
    rw [hstop, htext, byteLength]
    omega
  ordered := (layout_lexemes text).pairwise_le
  standsAt l hl := by
    obtain ⟨front, back, h⟩ := List.append_of_mem hl
    exact standsAt_of_lexemes h
  proper l hl := by
    obtain ⟨front, back, h⟩ := List.append_of_mem hl
    obtain ⟨-, -, -, -, hproper, -⟩ := exists_of_lexemes h
    exact hproper
  isBlank_outside before after c htext hout := by
    refine (layout_lexemes text).isBlank_outside htext ?_
    rwa [Nat.zero_add]
  beside_word l hl word hword before after htext hstart := by
    obtain ⟨front, back, h⟩ := List.append_of_mem hl
    obtain ⟨before', after', htext', hstart', hproper, hfirst, hseam⟩ := exists_of_lexemes h
    obtain ⟨rfl, hrest⟩ := append_inj_of_byteLength_eq (htext.symm.trans htext')
      (hstart.symm.trans hstart')
    rw [hword] at hrest hproper hfirst hseam
    obtain rfl : after = after' := List.append_cancel_left hrest
    obtain ⟨d, ds, hchars, hd, -⟩ := IsWord.exists_cons hproper
    refine ⟨fun c hc => ?_, Token.endsWord_of_first? hfirst⟩
    rw [← Bool.not_eq_true]
    intro hbeside
    have hends := hseam c hc hbeside
    rw [Token.text, hchars] at hends
    rw [hends d rfl] at hd
    cases hd
  longest l hl t before after ht htext hstart := by
    obtain ⟨front, back, h⟩ := List.append_of_mem hl
    obtain ⟨before', after', htext', hstart', -, hfirst, -⟩ := exists_of_lexemes h
    obtain ⟨rfl, hrest⟩ := append_inj_of_byteLength_eq (htext.symm.trans htext')
      (hstart.symm.trans hstart')
    rw [← hrest] at hfirst
    exact byteLength_le_of_prefix (ht.prefix_of_first? hfirst)

/-! ## Nothing else segments a text -/

namespace Segments

variable {before rest : List Char}

/-- A scanner that stands between the lexemes of a segmentation gives the ones that follow. -/
theorem toList_eq (h : Segments text (front ++ ls)) (htext : text.toList = before ++ rest)
    (hfront : ∀ m ∈ front, m.span.stop ≤ byteLength before)
    (hls : ∀ m ∈ ls, byteLength before ≤ m.span.start) :
    (⟨byteLength before, rest⟩ : Scanner).toList = ls := by
  -- lexeme by lexeme, the scanner passes over the blanks that no span holds
  induction ls generalizing front before rest with
  | nil =>
    refine Scanner.toList_of_next?_eq_none (Scanner.next?_eq_none_iff.2 fun c hc => ?_)
    obtain ⟨skipped, after, rfl⟩ := List.append_of_mem hc
    refine h.isBlank_outside (before ++ skipped) after c (by simp [htext]) fun m hm hholds => ?_
    have hstop := hfront m (by simpa using hm)
    rw [Span.Holds, byteLength_append] at hholds
    omega
  | cons l ls ih =>
    have hmem : l ∈ front ++ l :: ls := by simp
    obtain ⟨before', after, htext', hstart, hstop⟩ := (h.standsAt l hmem).exists_toList
    obtain ⟨blanks, rfl, hrest⟩ := exists_append_of_byteLength_le (htext.symm.trans htext')
      (hstart ▸ hls l List.mem_cons_self)
    have hordered := List.pairwise_cons.1 (List.pairwise_append.1 h.ordered).2.1
    have hlt := h.start_lt_stop l hmem
    have hblank : AllBlank blanks := by
      intro c hc
      obtain ⟨skipped, more, rfl⟩ := List.append_of_mem hc
      refine h.isBlank_outside (before ++ skipped) _ c (by simp [htext']; rfl) fun m hm hholds => ?_
      have hpos := c.utf8Size_pos
      simp only [Span.Holds, byteLength_append, byteLength] at hholds hstart
      rcases List.mem_append.1 hm with hm | hm
      · have := hfront m hm
        omega
      · rcases List.mem_cons.1 hm with rfl | hm
        · omega
        · have := hordered.1 m hm
          omega
    have hfirst : Token.first? (l.token.text.toList ++ after) = some (l.token, after) := by
      refine (h.proper l hmem).first?_append fun u more hu hu' => ?_
      exact h.longest l hmem u (before ++ blanks) more hu (by rw [htext', hu']) hstart
    have hnext : (⟨byteLength before, rest⟩ : Scanner).next?
        = some (l, ⟨byteLength (before ++ blanks ++ l.token.text.toList), after⟩) := by
      refine Scanner.next?_eq_some_iff.2
        ⟨blanks, hblank, hrest, hfirst, h.proper l hmem, ?_, hstop, ?_⟩
      · rw [hstart, byteLength_append]
      · rw [byteLength_append, hstop, hstart]
    rw [Scanner.toList_of_next?_eq_some hnext]
    congr 1
    have hfront' : Segments text ((front ++ [l]) ++ ls) := by simpa using h
    refine ih hfront' (by simp [htext']) ?_ ?_
    · intro m hm
      rcases List.mem_append.1 hm with hm | hm
      · have := hfront m hm
        rw [byteLength_append, byteLength_append]
        omega
      · obtain rfl : m = l := by simpa using hm
        rw [byteLength_append, hstop, hstart]
    · intro m hm
      have := hordered.1 m hm
      rw [byteLength_append]
      omega

end Segments

/-- `lexemes text` is the only list of lexemes that `Segments` the text: that leaves out nothing but
    blanks and at each place takes the longest token that begins there. -/
theorem segments_iff_eq_lexemes : Segments text ls ↔ ls = lexemes text := by
  constructor
  · intro h
    have hfront : Segments text ([] ++ ls) := h
    have htext : text.toList = [] ++ text.toList := rfl
    exact (hfront.toList_eq htext nofun fun _ _ => Nat.zero_le _).symm
  · rintro rfl
    exact segments_lexemes text

end TypeNotation
