import TypeNotation.Proofs.Lexeme.Segments
import TypeNotation.Proofs.TypeExpr.Refused

set_option autoImplicit false

/-! # Spacing does not matter

What a text is read as depends on its tokens alone, and so does what is wrong with it: two texts
with the same tokens are read alike or refused alike, and then the same tokens are blamed. Any text
can be written again with other blanks between its tokens, and keeps its tokens. -/

namespace TypeNotation

variable {text text' : String} {ls ls' rest rest' front : List Lexeme} {cause : Cause}

/-! ## Places told by positions -/

/-- A place among lexemes that is told without offsets: from the beginning of the lexeme at one
    position to the end of the lexeme at another, or behind the last lexeme. -/
inductive Position where
  | range (first last : Nat)
  | atEnd

namespace Position

/-- The span that a position is among some lexemes, if they reach that far. -/
def span? (ls : List Lexeme) : Position → Option Span
  | range first last => do return ⟨(← ls[first]?).span.start, (← ls[last]?).span.stop⟩
  | atEnd => some (.point (Parser.stopOf ls))

/-- The position that is blamed for a cause when some lexemes were read and some were left. -/
def ofCause (read left : Nat) : Cause → Position
  | .emptyArray | .emptyTuple => range (read - 1) read
  | _ => if left = 0 then atEnd else range read read

end Position

theorem Position.span?_range_self (front back : List Lexeme) (l : Lexeme) :
    (range front.length front.length).span? (front ++ l :: back) = some l.span := by
  simp [span?]

theorem Position.span?_ofCause_place (front rest : List Lexeme) :
    (if rest.length = 0 then atEnd else range front.length front.length).span? (front ++ rest)
      = some (⟨rest, Parser.stopOf (front ++ rest)⟩ : Parser).place := by
  cases rest with
  | nil => simp [span?, Parser.place]
  | cons l back =>
    rw [if_neg (by simp), span?_range_self]
    rfl

theorem Position.span?_ofCause_brackets {t u : Token}
    (ht : (Parser.tokensOf front).getLast? = some t)
    (hu : (Parser.tokensOf rest).head? = some u) (stop : Nat) :
    (range (front.length - 1) front.length).span? (front ++ rest)
      = some ⟨(Parser.lastStart? front).getD (⟨rest, stop⟩ : Parser).place.start,
          (⟨rest, stop⟩ : Parser).place.stop⟩ := by
  rw [Parser.tokensOf, List.head?_map, Option.map_eq_some_iff] at hu
  obtain ⟨m, hm, -⟩ := hu
  obtain ⟨back, rfl⟩ := List.head?_eq_some_iff.1 hm
  rw [Parser.tokensOf, List.getLast?_map, Option.map_eq_some_iff] at ht
  obtain ⟨l, hl, -⟩ := ht
  obtain ⟨init, rfl⟩ := List.getLast?_eq_some_iff.1 hl
  simp [span?, Parser.lastStart?, Parser.place]

/-- What is blamed is told by how many lexemes were read, how many were left and the cause. -/
theorem Position.span?_ofCause
    (h : Grammar.Stop.BorneOut (Parser.tokensOf front) ⟨cause, Parser.tokensOf rest⟩) :
    (ofCause front.length rest.length cause).span? (front ++ rest)
      = some ((⟨rest, Parser.stopOf (front ++ rest)⟩ : Parser).blame front cause) := by
  cases cause with
  | emptyArray => exact span?_ofCause_brackets h.1 h.2 _
  | emptyTuple => exact span?_ofCause_brackets h.1 h.2 _
  | _ => exact span?_ofCause_place front rest

/-! ## Lexemes with the same tokens -/

theorem spellings_eq_map_tokensOf (ls : List Lexeme) :
    spellings ls = (Parser.tokensOf ls).map Token.text := by
  simp [spellings, Parser.tokensOf]

theorem spellings_eq_of_tokensOf_eq (h : Parser.tokensOf ls = Parser.tokensOf ls') :
    spellings ls = spellings ls' := by
  rw [spellings_eq_map_tokensOf, h, ← spellings_eq_map_tokensOf]

/-- Lexemes with the same tokens can be parted at the same position. -/
theorem exists_eq_append_of_tokensOf_eq
    (h : Parser.tokensOf (front ++ rest) = Parser.tokensOf ls') :
    ∃ front' rest', ls' = front' ++ rest' ∧ Parser.tokensOf front' = Parser.tokensOf front ∧
      Parser.tokensOf rest' = Parser.tokensOf rest := by
  rw [Parser.tokensOf_append] at h
  obtain ⟨front', rest', rfl, hfront, hrest⟩ := List.map_eq_append_iff.1 h.symm
  exact ⟨front', rest', rfl, hfront, hrest⟩

theorem length_eq_of_tokensOf_eq (h : Parser.tokensOf ls = Parser.tokensOf ls') :
    ls.length = ls'.length := by
  simpa [Parser.tokensOf] using congrArg List.length h

namespace Parser

/-- A parser accepts lexemes with the same tokens alike, and leaves the same tokens. -/
theorem exists_parse_ok_of_tokensOf_eq (h : tokensOf ls = tokensOf ls') {of : TypeExpr} {p : Parser}
    (hparse : (ofLexemes ls).parse = (.ok of, p)) :
    ∃ p', (ofLexemes ls').parse = (.ok of, p') ∧ tokensOf p'.rest = tokensOf p.rest := by
  obtain ⟨tree, front, hp, hfront, hclear, hnesting, hhead, hvalue⟩ := parse_eq_ok_iff.1 hparse
  obtain rfl : ls = front ++ p.rest := congrArg Parser.rest hp
  obtain ⟨front', rest', rfl, hfront', hrest'⟩ := exists_eq_append_of_tokensOf_eq h
  refine ⟨⟨rest', stopOf (front' ++ rest')⟩, parse_eq_ok_iff.2 ?_, hrest'⟩
  exact ⟨tree, front', rfl, hfront'.trans hfront, hrest' ▸ hclear, hnesting, hhead, hvalue⟩

/-- A parser stops in lexemes with the same tokens alike: it gives the same cause, blames the same
    position and leaves the same tokens. -/
theorem exists_parse_error_of_tokensOf_eq (h : tokensOf ls = tokensOf ls') {fault : Fault}
    {p : Parser} (hparse : (ofLexemes ls).parse = (.error fault, p)) :
    ∃ (cause : Cause) (position : Position) (span span' : Span) (p' : Parser),
      fault = .at span cause ∧ position.span? ls = some span ∧
        (ofLexemes ls').parse = (.error (.at span' cause), p') ∧
        position.span? ls' = some span' ∧ tokensOf p'.rest = tokensOf p.rest := by
  obtain ⟨front, cause, hp, hread, rfl⟩ := parse_eq_error_iff.1 hparse
  obtain ⟨rest, stop⟩ := p
  obtain rfl : ls = front ++ rest := congrArg Parser.rest hp
  obtain rfl : stopOf (front ++ rest) = stop := congrArg Parser.stop hp
  obtain ⟨front', rest', rfl, hfront', hrest'⟩ := exists_eq_append_of_tokensOf_eq h
  obtain ⟨before, htokens, hborne⟩ := Grammar.read_within hread
  rw [ofLexemes, tokensOf_append, List.append_left_inj] at htokens
  subst htokens
  have hborne' : Grammar.Stop.BorneOut (tokensOf front') ⟨cause, tokensOf rest'⟩ := by
    rwa [hfront', hrest']
  have hspan' := Position.span?_ofCause hborne'
  rw [length_eq_of_tokensOf_eq hfront', length_eq_of_tokensOf_eq hrest'] at hspan'
  refine ⟨cause, _, _, _, ⟨rest', stopOf (front' ++ rest')⟩, rfl, Position.span?_ofCause hborne,
    parse_eq_error_iff.2 ⟨front', cause, rfl, ?_, rfl⟩, hspan', hrest'⟩
  rw [ofLexemes, ← h, hrest']
  exact hread

end Parser

/-! ## Texts with the same tokens -/

/-- What two texts are read as agrees in everything but offsets: the same type expression and the
    same tokens behind it, or the same cause, blamed at the same position, with the same tokens
    left. -/
inductive TypeExpr.Agree (text text' : String) :
    Except Refusal (TypeExpr × List Lexeme) → Except Refusal (TypeExpr × List Lexeme) → Prop
  | read {of : TypeExpr} {rest rest' : List Lexeme}
      (h : Parser.tokensOf rest = Parser.tokensOf rest') :
      TypeExpr.Agree text text' (.ok (of, rest)) (.ok (of, rest'))
  | rejected {cause : Cause} {span span' : Span} (position : Position)
      (hspan : position.span? (lexemes text) = some span)
      (hspan' : position.span? (lexemes text') = some span') :
      TypeExpr.Agree text text' (.error (.rejected (.at span cause)))
        (.error (.rejected (.at span' cause)))
  | stopped {cause : Cause} {span span' : Span} {remaining : List String} (position : Position)
      (hspan : position.span? (lexemes text) = some span)
      (hspan' : position.span? (lexemes text') = some span') :
      TypeExpr.Agree text text' (.error (.stopped (.at span cause) remaining text))
        (.error (.stopped (.at span' cause) remaining text'))

theorem TypeExpr.agree_of_tokensOf_eq (hne : text ≠ "") (hne' : text' ≠ "")
    (h : Parser.tokensOf (lexemes text) = Parser.tokensOf (lexemes text')) :
    Agree text text' (TypeExpr.parse text) (TypeExpr.parse text') := by
  cases hparse : TypeExpr.parse text with
  | ok result =>
    obtain ⟨of, rest⟩ := result
    obtain ⟨-, harrow, p, hp, rfl⟩ := parse_eq_ok_iff.1 hparse
    obtain ⟨p', hp', hrest⟩ := Parser.exists_parse_ok_of_tokensOf_eq h hp
    rw [← tokens_lexemes, ← Parser.tokensOf, h, Parser.tokensOf, tokens_lexemes] at harrow
    rw [parse_eq_ok_iff.2 ⟨hne', harrow, p', hp', rfl⟩]
    exact .read hrest.symm
  | error refusal =>
    cases parse_eq_error_iff.1 hparse with
    | empty htext => exact absurd htext hne
    | @arrow front back l hlexemes hl hfront =>
      rw [hlexemes] at h
      obtain ⟨front', rest', hlexemes', hfront', hrest'⟩ := exists_eq_append_of_tokensOf_eq h
      obtain ⟨l', back', rfl, hl', -⟩ := List.map_eq_cons_iff.1 hrest'
      have hrefused := parse_eq_error_iff.2
        (.arrow hlexemes' (hl'.trans hl) (by rwa [hfront']))
      rw [hrefused]
      refine .rejected (.range front.length front.length) ?_ ?_
      · rw [hlexemes, Position.span?_range_self]
      · rw [hlexemes', ← length_eq_of_tokensOf_eq hfront', Position.span?_range_self]
    | @stopped fault p _ harrow hp =>
      obtain ⟨cause, position, span, span', p', rfl, hspan, hp', hspan', hrest⟩ :=
        Parser.exists_parse_error_of_tokensOf_eq h hp
      rw [h] at harrow
      rw [parse_eq_error_iff.2 (.stopped hne' harrow hp'), spellings_eq_of_tokensOf_eq hrest]
      exact .stopped position hspan hspan'

/-! ## Other blanks between the tokens -/

/-- Some spellings with gaps between them: `gap i` stands behind the one at index `i`, if that is
    not the last. -/
def spaced (gap : Nat → String) : List String → String
  | [] => ""
  | [part] => part
  | part :: parts => part ++ gap 0 ++ spaced (fun i => gap (i + 1)) parts

theorem tokensIn_append_of_allBlank {blanks : List Char} (h : AllBlank blanks) (cs : List Char) :
    tokensIn (blanks ++ cs) = tokensIn cs := by
  induction blanks with
  | nil => rfl
  | cons c blanks ih =>
    rw [AllBlank, List.forall_mem_cons] at h
    rw [List.cons_append, tokensIn_cons_of_isBlank h.1, ih h.2]

/-- In front of a blank, and at the end of a text, a proper token is cut off. -/
theorem Token.Proper.tokensIn_append {t : Token} (ht : t.Proper) {rest : List Char}
    (hrest : ∀ c ∈ rest.head?, isBlank c = true) :
    tokensIn (t.text.toList ++ rest) = t :: tokensIn rest := by
  have hfirst := ht.first?_append_blank hrest
  obtain ⟨c, cs, htext, hc⟩ := ht.exists_text_eq
  rw [htext] at hfirst ⊢
  exact tokensIn_of_first? hc hfirst

theorem tokensIn_spaced {ts : List Token} (h : ∀ t ∈ ts, t.Proper) {gap : Nat → String}
    (hgap : ∀ i, gap i ≠ "" ∧ AllBlank (gap i).toList) :
    tokensIn (spaced gap (ts.map Token.text)).toList = ts := by
  induction ts generalizing gap with
  | nil => exact tokensIn_nil
  | cons t ts ih =>
    rw [List.forall_mem_cons] at h
    cases ts with
    | nil =>
      have hnil : ∀ c ∈ ([] : List Char).head?, isBlank c = true := nofun
      have htokens := h.1.tokensIn_append hnil
      rwa [List.append_nil, tokensIn_nil] at htokens
    | cons u ts =>
      obtain ⟨hne, hblank⟩ := hgap 0
      have hrest : tokensIn (spaced (fun i => gap (i + 1)) ((u :: ts).map Token.text)).toList
          = u :: ts := ih h.2 fun i => hgap (i + 1)
      have hfollows : ∀ c ∈ ((gap 0).toList ++
          (spaced (fun i => gap (i + 1)) ((u :: ts).map Token.text)).toList).head?,
            isBlank c = true := by
        intro c hc
        rw [List.head?_append_of_ne_nil _ (fun hnil => hne (String.toList_eq_nil_iff.1 hnil))] at hc
        exact hblank c (List.mem_of_mem_head? hc)
      rw [List.map_cons, List.map_cons, spaced, ← List.map_cons, String.toList_append,
        String.toList_append, List.append_assoc, h.1.tokensIn_append hfollows,
        tokensIn_append_of_allBlank hblank, hrest]
      exact List.cons_ne_nil _ _

theorem ne_empty_of_lexemes_ne_nil (h : lexemes text ≠ []) : text ≠ "" := by
  rintro rfl
  exact h (List.map_eq_nil_iff.1 ((tokens_lexemes "").trans tokensIn_nil))

theorem tokensOf_lexemes_spaced (text : String) {gap : Nat → String}
    (hgap : ∀ i, gap i ≠ "" ∧ AllBlank (gap i).toList) :
    Parser.tokensOf (lexemes (spaced gap (spellings (lexemes text))))
      = Parser.tokensOf (lexemes text) := by
  have hproper : ∀ t ∈ Parser.tokensOf (lexemes text), t.Proper := by
    intro t ht
    obtain ⟨l, hl, rfl⟩ := List.mem_map.1 ht
    exact (segments_lexemes text).proper l hl
  rw [spellings_eq_map_tokensOf]
  exact (tokens_lexemes _).trans (tokensIn_spaced hproper hgap)

/-- If two texts that are not empty have the same `tokensOf` their lexemes, what `TypeExpr.parse`
    gives for them does `Agree`. A text has the same tokens as the text that is `spaced` from its
    spellings with any blanks as gaps, and if it has tokens at all, the two `Agree` as well. -/
theorem TypeExpr.agree_parse_of_tokensOf_eq :
    (∀ text text' : String, text ≠ "" → text' ≠ "" →
      Parser.tokensOf (lexemes text) = Parser.tokensOf (lexemes text') →
        Agree text text' (TypeExpr.parse text) (TypeExpr.parse text')) ∧
    ∀ (text : String) (gap : Nat → String),
      (∀ i, gap i ≠ "" ∧ AllBlank (gap i).toList) →
        Parser.tokensOf (lexemes (spaced gap (spellings (lexemes text))))
            = Parser.tokensOf (lexemes text) ∧
          (lexemes text ≠ [] →
            Agree text (spaced gap (spellings (lexemes text))) (TypeExpr.parse text)
              (TypeExpr.parse (spaced gap (spellings (lexemes text))))) := by
  refine ⟨fun text text' => agree_of_tokensOf_eq, fun text gap hgap => ?_⟩
  have htokens := tokensOf_lexemes_spaced text hgap
  refine ⟨htokens, fun hne => agree_of_tokensOf_eq (ne_empty_of_lexemes_ne_nil hne) ?_ htokens.symm⟩
  apply ne_empty_of_lexemes_ne_nil
  rwa [← List.length_pos_iff, length_eq_of_tokensOf_eq htokens, List.length_pos_iff]

/-- The tokens of `hollowText` with a single space between any two. -/
def airyText : String :=
  "x :: [ ] |"

theorem lexemes_airyText :
    lexemes airyText = [⟨.identifier "x", 0, 1⟩, ⟨.doubleColon, 2, 4⟩, ⟨.leftBracket, 5, 6⟩,
      ⟨.rightBracket, 7, 8⟩, ⟨.pipe, 9, 10⟩] := by
  rw [lexemes, Scanner.toList_eq_upTo (n := 11) (by decide)]
  rfl

/-- The instance at two texts that are both refused for their empty brackets. -/
theorem agree_parse_hollowText_airyText :
    hollowText ≠ "" ∧ airyText ≠ "" ∧
      Parser.tokensOf (lexemes hollowText) = Parser.tokensOf (lexemes airyText) ∧
      TypeExpr.Agree hollowText airyText (TypeExpr.parse hollowText) (TypeExpr.parse airyText) := by
  have hne : hollowText ≠ "" := by decide
  have hne' : airyText ≠ "" := by decide
  have htokens : Parser.tokensOf (lexemes hollowText) = Parser.tokensOf (lexemes airyText) := by
    rw [lexemes_hollowText, lexemes_airyText]
    rfl
  exact ⟨hne, hne', htokens, TypeExpr.agree_parse_of_tokensOf_eq.1 _ _ hne hne' htokens⟩

end TypeNotation
