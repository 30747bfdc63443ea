import TypeNotation.Proofs.Lexeme.Segments

set_option autoImplicit false

/-! # Cutting a text between its lexemes

A text that is cut where no lexeme stands falls into two texts, and either of them is cut into the
lexemes that the whole text has there. The front part ends sooner, but a token that was the longest
at its place is so all the more where less of the text is left. -/

namespace TypeNotation

variable {text before after : String} {front back : List Lexeme}

/-- The front part of a text is segmented by the lexemes that end in it. -/
theorem Segments.take (h : Segments (before ++ after) (front ++ back))
    (hfront : ∀ l ∈ front, l.span.stop ≤ before.utf8ByteSize)
    (hback : ∀ l ∈ back, before.utf8ByteSize ≤ l.span.start) : Segments before front where
  start_lt_stop l hl := h.start_lt_stop l (List.mem_append_left _ hl)
  ordered := (List.pairwise_append.1 h.ordered).1
  standsAt l hl := by
    obtain ⟨init, rest, htext, hstart, hstop⟩ :=
      (h.standsAt l (List.mem_append_left _ hl)).exists_toList
    have hle : byteLength (init ++ l.token.text.toList) ≤ byteLength before.toList := by
      rw [byteLength_append, byteLength_toList before, ← hstart, ← hstop]
      exact hfront l hl
    rw [String.toList_append, ← List.append_assoc] at htext
    obtain ⟨between, hbefore, -⟩ := exists_append_of_byteLength_le htext.symm hle
    exact .of_toList init between (by rw [hbefore, List.append_assoc]) hstart hstop
  proper l hl := h.proper l (List.mem_append_left _ hl)
  isBlank_outside init rest c htext hout := by
    refine h.isBlank_outside init (rest ++ after.toList) c (by simp [htext]) fun l hl => ?_
    rcases List.mem_append.1 hl with hl | hl
    · exact hout l hl
    · -- the character stands in front of the lexemes that were cut off
      rintro ⟨hstart, -⟩
      have hle := hback l hl
      have hpos := c.utf8Size_pos
      rw [← byteLength_toList, htext, byteLength_append, byteLength] at hle
      omega
  beside_word l hl word hword init rest htext hstart := by
    have hbeside := h.beside_word l (List.mem_append_left _ hl) word hword init
      (rest ++ after.toList) (by simp [htext]) hstart
    refine ⟨hbeside.1, fun c hc => hbeside.2 c ?_⟩
    rw [List.head?_append, Option.mem_def.1 hc]
    rfl
  longest l hl t init rest ht htext hstart :=
    h.longest l (List.mem_append_left _ hl) t init (rest ++ after.toList) ht (by simp [htext])
      hstart

theorem lexemes_take (h : lexemes (before ++ after) = front ++ back)
    (hfront : ∀ l ∈ front, l.span.stop ≤ before.utf8ByteSize)
    (hback : ∀ l ∈ back, before.utf8ByteSize ≤ l.span.start) : lexemes before = front :=
  (segments_iff_eq_lexemes.1 ((segments_iff_eq_lexemes.2 h.symm).take hfront hback)).symm

/-- The back part of a text has the tokens of the lexemes that begin in it. -/
theorem tokens_lexemes_drop (h : lexemes (before ++ after) = front ++ back)
    (hfront : ∀ l ∈ front, l.span.stop ≤ before.utf8ByteSize)
    (hback : ∀ l ∈ back, before.utf8ByteSize ≤ l.span.start) :
    (lexemes after).map (·.token) = back.map (·.token) := by
  have hscan : (⟨byteLength before.toList, after.toList⟩ : Scanner).toList = back := by
    refine (segments_iff_eq_lexemes.2 h.symm).toList_eq (String.toList_append) ?_ ?_
    · rwa [byteLength_toList]
    · rwa [byteLength_toList]
  rw [tokens_lexemes, ← hscan, Scanner.tokens_toList]

/-! ## The part where the last lexemes stand -/

namespace Segments

variable {ls : List Lexeme} {first last : Lexeme}

theorem stop_le_getLast (h : Segments text ls) (hlast : ls.getLast? = some last) :
    ∀ l ∈ ls, l.span.stop ≤ last.span.stop := by
  intro l hl
  obtain ⟨init, rfl⟩ := List.getLast?_eq_some_iff.1 hlast
  rcases List.mem_append.1 hl with hinit | hsame
  · have hle := (List.pairwise_append.1 h.ordered).2.2 l hinit last (List.mem_singleton_self last)
    have hlt := h.start_lt_stop last (List.mem_append_right _ (List.mem_singleton_self last))
    omega
  · rw [List.mem_singleton.1 hsame]

theorem stop_le_head (h : Segments text (front ++ first :: back)) :
    ∀ l ∈ front, l.span.stop ≤ first.span.start := by
  intro l hl
  exact (List.pairwise_append.1 h.ordered).2.2 l hl first List.mem_cons_self

theorem head_le_start (h : Segments text (front ++ first :: back)) :
    ∀ l ∈ first :: back, first.span.start ≤ l.span.start := by
  intro l hl
  rcases List.mem_cons.1 hl with rfl | hback
  · exact Nat.le_refl _
  · have hle := (List.pairwise_cons.1 (List.pairwise_append.1 h.ordered).2.1).1 l hback
    have hlt := h.start_lt_stop first (List.mem_append_right _ List.mem_cons_self)
    omega

end Segments

/-- Of two ways to cut a text, the one that cuts at the smaller offset cuts the front part of the
    other one. -/
theorem exists_append_of_utf8ByteSize_le {init rest init' rest' : String}
    (h : init ++ rest = init' ++ rest') (hle : init.utf8ByteSize ≤ init'.utf8ByteSize) :
    ∃ between, init' = init ++ between := by
  have hchars : init.toList ++ rest.toList = init'.toList ++ rest'.toList := by
    rw [← String.toList_append, h, String.toList_append]
  rw [← byteLength_toList, ← byteLength_toList init'] at hle
  obtain ⟨between, hbetween, -⟩ := exists_append_of_byteLength_le hchars hle
  refine ⟨String.ofList between, String.toList_injective ?_⟩
  rw [hbetween, String.toList_append, String.toList_ofList]

/-- The last lexemes of a text stand in a part of it that has just their tokens, from where the
    first of them begins to where the last one ends. The text before that part has the other
    lexemes, and behind it there are only blanks. -/
theorem exists_parts_of_lexemes {first last : Lexeme} (h : lexemes text = front ++ back)
    (hfirst : back.head? = some first) (hlast : back.getLast? = some last) :
    ∃ before part after : String, text = before ++ part ++ after ∧
      first.span.start = before.utf8ByteSize ∧
      last.span.stop = before.utf8ByteSize + part.utf8ByteSize ∧ part ≠ "" ∧
      lexemes before = front ∧ (lexemes part).map (·.token) = back.map (·.token) ∧
      AllBlank after.toList := by
  have hsegments : Segments text (front ++ back) := segments_iff_eq_lexemes.2 h.symm
  obtain ⟨tail, rfl⟩ := List.head?_eq_some_iff.1 hfirst
  have hlast' : (front ++ first :: tail).getLast? = some last := by
    rw [List.getLast?_append_of_ne_nil _ (List.cons_ne_nil first tail), hlast]
  have hmem : first ∈ front ++ first :: tail := List.mem_append_right _ List.mem_cons_self
  have hlt : first.span.start < last.span.stop :=
    Nat.lt_of_lt_of_le (hsegments.start_lt_stop first hmem)
      (hsegments.stop_le_getLast hlast' first hmem)
  -- the text is cut where the first of the lexemes begins and where the last one ends
  obtain ⟨init, after, htext, hblank, hstop⟩ := allBlank_after_lexemes text
  rw [h, hlast', Option.map_some, Option.getD_some] at hstop
  obtain ⟨before, rest, htext', hspan⟩ := hsegments.standsAt first hmem
  have hstart : first.span.start = before.utf8ByteSize := congrArg Span.start hspan
  obtain ⟨part, rfl⟩ : ∃ part, init = before ++ part := by
    rw [String.append_assoc] at htext'
    exact exists_append_of_utf8ByteSize_le (htext'.symm.trans htext) (by omega)
  rw [String.utf8ByteSize_append] at hstop
  subst htext
  have hinit : lexemes (before ++ part) = front ++ first :: tail := by
    refine lexemes_take (h.trans (List.append_nil _).symm) ?_ nofun
    rw [String.utf8ByteSize_append, ← hstop]
    exact hsegments.stop_le_getLast hlast'
  have hfront := hstart ▸ hsegments.stop_le_head
  have hback := hstart ▸ hsegments.head_le_start
  refine ⟨before, part, after, rfl, hstart, hstop, ?_, lexemes_take hinit hfront hback,
    tokens_lexemes_drop hinit hfront hback, hblank⟩
  rintro rfl
  rw [hstop, hstart] at hlt
  simp at hlt

end TypeNotation
