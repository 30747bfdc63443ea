import TypeNotation.Lexeme

set_option autoImplicit false

/-! # Where lexemes stand

The span of a lexeme is the place of its own spelling in the text, and between two lexemes that
follow one another there is nothing but blanks. `StandsAt` says what stands at a span without
cutting a text, and `Layout` says how a text is laid out as blanks and lexemes. -/

namespace TypeNotation

theorem byteLength_eq_utf8ByteSize (cs : List Char) :
    byteLength cs = (String.ofList cs).utf8ByteSize := by
  induction cs with
  | nil => rfl
  | cons c cs ih => simp [byteLength, ih]

theorem byteLength_toList (text : String) : byteLength text.toList = text.utf8ByteSize := by
  rw [byteLength_eq_utf8ByteSize, String.ofList_toList]

theorem byteLength_eq_zero_iff {cs : List Char} : byteLength cs = 0 ↔ cs = [] := by
  cases cs with
  | nil => simp [byteLength]
  | cons c cs =>
    have hpos := c.utf8Size_pos
    simp only [byteLength, reduceCtorEq, iff_false]
    omega

theorem byteLength_le_of_prefix {cs ds : List Char} (h : cs <+: ds) :
    byteLength cs ≤ byteLength ds := by
  obtain ⟨more, rfl⟩ := h
  rw [byteLength_append]
  exact Nat.le_add_right _ _

/-- Of two ways to cut a text, the one that cuts at the smaller offset cuts the front part of the
    other one. -/
theorem exists_append_of_byteLength_le {front rest front' rest' : List Char}
    (h : front ++ rest = front' ++ rest') (hle : byteLength front ≤ byteLength front') :
    ∃ between, front' = front ++ between ∧ rest = between ++ rest' := by
  rcases List.append_eq_append_iff.1 h with ⟨between, rfl, rfl⟩ | ⟨between, rfl, rfl⟩
  · exact ⟨between, rfl, rfl⟩
  · rw [byteLength_append] at hle
    obtain rfl : between = [] := byteLength_eq_zero_iff.1 (by omega)
    exact ⟨[], by simp, rfl⟩

theorem append_inj_of_byteLength_eq {front rest front' rest' : List Char}
    (h : front ++ rest = front' ++ rest') (heq : byteLength front = byteLength front') :
    front = front' ∧ rest = rest' := by
  obtain ⟨between, rfl, rfl⟩ := exists_append_of_byteLength_le h (Nat.le_of_eq heq)
  rw [byteLength_append] at heq
  obtain rfl : between = [] := byteLength_eq_zero_iff.1 (by omega)
  exact ⟨by simp, rfl⟩

/-- A run of blanks, which may be empty. -/
def AllBlank (cs : List Char) : Prop :=
  ∀ c ∈ cs, isBlank c = true

/-! ## What stands at a span -/

/-- The bytes of `text` at a span are those of `part`. Both ends of the span then lie between two
    characters of the text. -/
def StandsAt (text : String) (span : Span) (part : String) : Prop :=
  ∃ before after : String, text = before ++ part ++ after ∧
    span = ⟨before.utf8ByteSize, before.utf8ByteSize + part.utf8ByteSize⟩

namespace StandsAt

variable {text part : String} {span : Span}

theorem start_le_stop (h : StandsAt text span part) : span.start ≤ span.stop := by
  obtain ⟨before, after, -, rfl⟩ := h
  exact Nat.le_add_right _ _

theorem stop_le (h : StandsAt text span part) : span.stop ≤ text.utf8ByteSize := by
  obtain ⟨before, after, rfl, rfl⟩ := h
  rw [String.utf8ByteSize_append, String.utf8ByteSize_append]
  exact Nat.le_add_right _ _

theorem of_toList (before after : List Char)
    (h : text.toList = before ++ (part.toList ++ after)) (hstart : span.start = byteLength before)
    (hstop : span.stop = span.start + byteLength part.toList) : StandsAt text span part := by
  refine ⟨String.ofList before, String.ofList after, ?_, ?_⟩
  · apply String.toList_injective
    simp [h]
  · rw [← byteLength_eq_utf8ByteSize, ← byteLength_toList, ← hstart, ← hstop]

end StandsAt

/-! ## A text is blanks and lexemes -/

/-- A text that begins at some offset: blanks, a lexeme, blanks, and so on to its end. -/
inductive Layout : Nat → List Char → List Lexeme → Prop
  | nil {offset : Nat} {cs : List Char} (hblank : AllBlank cs) : Layout offset cs []
  | cons {offset : Nat} {blanks cs : List Char} {l : Lexeme} {ls : List Lexeme}
      (hblank : AllBlank blanks) (hstart : l.span.start = offset + byteLength blanks)
      (hstop : l.span.stop = l.span.start + byteLength l.token.text.toList)
      (h : Layout l.span.stop cs ls) :
      Layout offset (blanks ++ (l.token.text.toList ++ cs)) (l :: ls)

/-- Where there is a character there is a token. -/
theorem Token.eq_nil_of_first? {cs : List Char} (h : first? cs = none) : cs = [] := by
  unfold first? at h
  split at h
  · rfl
  · cases h
  · cases h
  · cases h
  · split at h <;> cases h

namespace Scanner

variable {s s' : Scanner} {lexeme : Lexeme}

/-- A scanner passes over blanks, and over nothing else, on its way to a lexeme. -/
theorem of_next? (h : s.next? = some (lexeme, s')) :
    ∃ blanks, AllBlank blanks ∧ s.rest = blanks ++ (lexeme.token.text.toList ++ s'.rest) ∧
      lexeme.span.start = s.offset + byteLength blanks ∧
      lexeme.span.stop = lexeme.span.start + byteLength lexeme.token.text.toList ∧
      s'.offset = lexeme.span.stop := by
  unfold next? at h
  split at h
  · cases h
  · next hfirst =>
    cases h
    refine ⟨s.rest.takeWhile isBlank, List.all_eq_true.1 List.all_takeWhile, ?_, rfl, rfl, rfl⟩
    rw [Token.text_append_of_first? hfirst, List.takeWhile_append_dropWhile]

theorem allBlank_of_next? (h : s.next? = none) : AllBlank s.rest := by
  unfold next? at h
  split at h
  · next hfirst =>
    rw [← List.takeWhile_append_dropWhile (p := isBlank) (l := s.rest),
      Token.eq_nil_of_first? hfirst, List.append_nil]
    exact List.all_eq_true.1 List.all_takeWhile
  · cases h

theorem layout_toList (s : Scanner) : Layout s.offset s.rest s.toList := by
  fun_induction Scanner.toList s with
  | case1 s h => exact .nil (allBlank_of_next? h)
  | case2 s lexeme s' h _ ih =>
    obtain ⟨blanks, hblank, hrest, hstart, hstop, hoffset⟩ := of_next? h
    rw [hrest]
    rw [hoffset] at ih
    exact .cons hblank hstart hstop ih

end Scanner

namespace Layout

variable {offset : Nat} {cs : List Char} {front back : List Lexeme}

/-- A layout can be cut behind any of its lexemes. -/
theorem split (h : Layout offset cs (front ++ back)) :
    ∃ before after, cs = before ++ after ∧ Layout (offset + byteLength before) after back ∧
      (front.getLast?.map (·.span.stop)).getD offset = offset + byteLength before := by
  -- the offset moves on with each lexeme in front
  induction front generalizing offset cs with
  | nil => exact ⟨[], cs, rfl, h, rfl⟩
  | cons l front ih =>
    cases h with
    | @cons _ blanks cs _ _ hblank hstart hstop h =>
      obtain ⟨before, after, rfl, hback, hlast⟩ := ih h
      have hoffset : l.span.stop + byteLength before
          = offset + byteLength (blanks ++ (l.token.text.toList ++ before)) := by
        rw [byteLength_append, byteLength_append]
        omega
      refine ⟨blanks ++ (l.token.text.toList ++ before), after, by simp, ?_, ?_⟩
      · rwa [← hoffset]
      · rw [← hoffset, ← hlast]
        cases front <;> simp [List.getLast?_cons]

end Layout

/-! ## The lexemes of a text -/

variable {text : String} {l m : Lexeme} {front back : List Lexeme}

theorem layout_lexemes (text : String) : Layout 0 text.toList (lexemes text) :=
  (Scanner.ofString text).layout_toList

/-- A lexeme stands at its span. -/
theorem standsAt_of_lexemes (h : lexemes text = front ++ l :: back) :
    StandsAt text l.span l.token.text := by
  obtain ⟨before, after, htext, hlayout, -⟩ := (h ▸ layout_lexemes text).split
  cases hlayout with
  | @cons _ blanks cs _ _ _ hstart hstop _ =>
    refine .of_toList (before ++ blanks) cs ?_ ?_ hstop
    · rw [htext, List.append_assoc]
    · rw [hstart, byteLength_append, Nat.zero_add]

/-- Only blanks stand between a lexeme and the next one. -/
theorem standsAt_of_lexemes_pair (h : lexemes text = front ++ l :: m :: back) :
    ∃ blanks : String, AllBlank blanks.toList ∧
      StandsAt text ⟨l.span.start, m.span.stop⟩ (l.token.text ++ blanks ++ m.token.text) := by
  obtain ⟨before, after, htext, hlayout, -⟩ := (h ▸ layout_lexemes text).split
  cases hlayout with
  | @cons _ blanks _ _ _ _ hstart hstop hlayout =>
    cases hlayout with
    | @cons _ between cs _ _ hbetween hstart' hstop' _ =>
      refine ⟨String.ofList between, by rwa [String.toList_ofList], ?_⟩
      refine .of_toList (before ++ blanks) cs ?_ ?_ ?_
      · simp [htext]
      · rw [hstart, byteLength_append, Nat.zero_add]
      · simp only [String.toList_append, String.toList_ofList, byteLength_append]
        omega

/-- Only blanks stand behind the last lexeme. -/
theorem allBlank_after_lexemes (text : String) :
    ∃ before after : String, text = before ++ after ∧ AllBlank after.toList ∧
      ((lexemes text).getLast?.map (·.span.stop)).getD 0 = before.utf8ByteSize := by
  have hlayout := layout_lexemes text
  rw [← List.append_nil (lexemes text)] at hlayout
  obtain ⟨before, after, htext, hnil, hlast⟩ := hlayout.split
  cases hnil with
  | nil hblank =>
    refine ⟨String.ofList before, String.ofList after, ?_, ?_, ?_⟩
    · apply String.toList_injective
      simp [htext]
    · rwa [String.toList_ofList]
    · rw [hlast, Nat.zero_add, byteLength_eq_utf8ByteSize]

end TypeNotation
