import TypeNotation.Proofs.Lexeme.Layout
import TypeNotation.Proofs.Parser.Fault

set_option autoImplicit false

/-! # Why a text is refused

A text is refused for one of three reasons: it is empty, it holds an arrow, or a parser stops in it
(`TypeExpr.parse_eq_error_iff`). But for the empty text the refusal blames a place, and the text
bears the blame out: what the cause speaks of stands just there. -/

namespace TypeNotation

variable {text : String} {refusal : Refusal} {front rest : List Lexeme} {cause : Cause}

/-! ## The reasons -/

/-- The three reasons for which `TypeExpr.parse` refuses a text, with the refusal that each of them
    comes to. -/
inductive TypeExpr.Refused (text : String) : Refusal → Prop
  | empty (htext : text = "") : TypeExpr.Refused text (.rejected .emptyInput)
  | arrow {front back : List Lexeme} {l : Lexeme} (hlexemes : lexemes text = front ++ l :: back)
      (hl : l.token = .arrow) (hfront : .arrow ∉ Parser.tokensOf front) :
      TypeExpr.Refused text (.rejected (.at l.span .functionType))
  | stopped {fault : Fault} {p : Parser} (htext : text ≠ "")
      (harrow : .arrow ∉ Parser.tokensOf (lexemes text))
      (hparse : (Parser.ofLexemes (lexemes text)).parse = (.error fault, p)) :
      TypeExpr.Refused text (.stopped fault (spellings p.rest) text)

theorem arrow_not_mem_tokensOf_iff {ls : List Lexeme} :
    .arrow ∉ Parser.tokensOf ls ↔ ∀ l ∈ ls, l.token ≠ .arrow := by
  simp [Parser.tokensOf]

theorem TypeExpr.parse_eq_error_iff :
    TypeExpr.parse text = .error refusal ↔ TypeExpr.Refused text refusal := by
  constructor
  · intro h
    rw [TypeExpr.parse] at h
    split at h
    · next hempty =>
      cases h
      exact .empty (String.isEmpty_iff.1 hempty)
    · next hempty =>
      dsimp only at h
      split at h
      · next l hfind =>
        cases h
        obtain ⟨hl, front, back, hlexemes, hfront⟩ := List.find?_eq_some_iff_append.1 hfind
        refine .arrow hlexemes (by simpa using hl) (arrow_not_mem_tokensOf_iff.2 ?_)
        exact fun m hm => by simpa using hfront m hm
      · next hfind =>
        have harrow : .arrow ∉ Parser.tokensOf (lexemes text) :=
          arrow_not_mem_tokensOf_iff.2 (by simpa using hfind)
        split at h
        · cases h
        · next hparse =>
          cases h
          exact .stopped (fun htext => hempty (String.isEmpty_iff.2 htext)) harrow hparse
  · intro h
    cases h with
    | empty htext => simp [TypeExpr.parse, htext]
    | @arrow front back l hlexemes hl hfront =>
      have hfind : (lexemes text).find? (·.token = .arrow) = some l := by
        rw [hlexemes, List.find?_eq_some_iff_append]
        refine ⟨by simpa using hl, front, back, rfl, fun m hm => ?_⟩
        simpa using arrow_not_mem_tokensOf_iff.1 hfront m hm
      have htext : text ≠ "" := by
        rintro rfl
        have hnil := tokens_lexemes ""
        simp [hlexemes] at hnil
      simp [TypeExpr.parse, htext, hfind]
    | stopped htext harrow hparse =>
      have hfind : (lexemes text).find? (·.token = .arrow) = none := by
        simpa using arrow_not_mem_tokensOf_iff.1 harrow
      simp [TypeExpr.parse, htext, hfind, hparse]

/-! ## The place that is blamed -/

/-- The first of the lexemes `rest` is the token `t`, and it stands at `span`. -/
def TokenStandsAt (text : String) (span : Span) (rest : List Lexeme) (t : Token) : Prop :=
  ∃ l, rest.head? = some l ∧ l.token = t ∧ l.span = span ∧ StandsAt text span t.text

/-- The first of the lexemes `rest` is the token `u`, and `span` ends with it. It begins with `t`,
    and between the two there are only blanks. -/
def PairStandsAt (text : String) (span : Span) (rest : List Lexeme) (t u : Token) : Prop :=
  ∃ l, rest.head? = some l ∧ l.token = u ∧ l.span.stop = span.stop ∧
    ∃ blanks : String, AllBlank blanks.toList ∧ StandsAt text span (t.text ++ blanks ++ u.text)

/-- What a text shows at the place that is blamed for a cause when `rest` was not read. -/
def Cause.ShownAt (text : String) (span : Span) (rest : List Lexeme) : Cause → Prop
  | .unexpectedEnd =>
    rest = [] ∧ ∃ before after : String, text = before ++ after ∧
      span = .point before.utf8ByteSize ∧ AllBlank after.toList
  | .unexpected _ found => ∃ t, t.text = found ∧ TokenStandsAt text span rest t
  | .functionType => False
  | .missingLabel => TokenStandsAt text span rest .doubleColon
  | .emptyArray => PairStandsAt text span rest .leftBracket .rightBracket
  | .emptyTuple => PairStandsAt text span rest .leftParen .rightParen
  | .tooDeep _ => ∃ t, t.opens = true ∧ TokenStandsAt text span rest t

/-- What a text shows at the place that is blamed for its refusal. -/
def Refusal.ShownAt (text : String) (span : Span) : Refusal → Prop
  | .rejected fault =>
    fault = .at span .functionType ∧ StandsAt text span "->" ∧
      ∃ front back, lexemes text = front ++ ⟨.arrow, span⟩ :: back ∧
        .arrow ∉ Parser.tokensOf front
  | .stopped fault remaining input =>
    input = text ∧ ∃ cause front rest, fault = .at span cause ∧ lexemes text = front ++ rest ∧
      remaining = spellings rest ∧ cause.ShownAt text span rest

theorem standsAt_point {before after : String} :
    StandsAt (before ++ after) (.point before.utf8ByteSize) "" :=
  ⟨before, after, by simp, rfl⟩

theorem TokenStandsAt.exists_standsAt {span : Span} {t : Token}
    (h : TokenStandsAt text span rest t) : ∃ part, StandsAt text span part := by
  obtain ⟨l, -, -, -, hstands⟩ := h
  exact ⟨_, hstands⟩

theorem PairStandsAt.exists_standsAt {span : Span} {t u : Token}
    (h : PairStandsAt text span rest t u) : ∃ part, StandsAt text span part := by
  obtain ⟨l, -, -, -, blanks, -, hstands⟩ := h
  exact ⟨_, hstands⟩

theorem Cause.ShownAt.exists_standsAt {span : Span} (h : cause.ShownAt text span rest) :
    ∃ part, StandsAt text span part := by
  cases cause with
  | unexpectedEnd =>
    obtain ⟨-, before, after, rfl, rfl, -⟩ := h
    exact ⟨"", standsAt_point⟩
  | unexpected expected found =>
    obtain ⟨t, -, hstands⟩ := h
    exact hstands.exists_standsAt
  | functionType => exact absurd h id
  | missingLabel => exact TokenStandsAt.exists_standsAt h
  | emptyArray => exact PairStandsAt.exists_standsAt h
  | emptyTuple => exact PairStandsAt.exists_standsAt h
  | tooDeep limit =>
    obtain ⟨t, -, hstands⟩ := h
    exact hstands.exists_standsAt

theorem Refusal.ShownAt.exists_standsAt {span : Span} (h : refusal.ShownAt text span) :
    ∃ part, StandsAt text span part := by
  cases refusal with
  | rejected fault => exact ⟨"->", h.2.1⟩
  | stopped fault remaining input =>
    obtain ⟨-, cause, front, rest, -, -, -, hshown⟩ := h
    exact hshown.exists_standsAt

/-- A parser stands in front of its next lexeme. -/
theorem tokenStandsAt_place {stop : Nat} {t : Token} (h : lexemes text = front ++ rest)
    (ht : (Parser.tokensOf rest).head? = some t) :
    TokenStandsAt text (⟨rest, stop⟩ : Parser).place rest t := by
  rw [Parser.tokensOf, List.head?_map, Option.map_eq_some_iff] at ht
  obtain ⟨l, hl, rfl⟩ := ht
  obtain ⟨back, rfl⟩ := List.head?_eq_some_iff.1 hl
  exact ⟨l, rfl, rfl, rfl, standsAt_of_lexemes h⟩

/-- A parser stands between two brackets with only blanks between them. -/
theorem pairStandsAt_place {stop : Nat} {t u : Token} (h : lexemes text = front ++ rest)
    (ht : (Parser.tokensOf front).getLast? = some t)
    (hu : (Parser.tokensOf rest).head? = some u) :
    PairStandsAt text ⟨(Parser.lastStart? front).getD (⟨rest, stop⟩ : Parser).place.start,
      (⟨rest, stop⟩ : Parser).place.stop⟩ rest t u := by
  rw [Parser.tokensOf, List.head?_map, Option.map_eq_some_iff] at hu
  obtain ⟨m, hm, rfl⟩ := hu
  obtain ⟨back, rfl⟩ := List.head?_eq_some_iff.1 hm
  rw [Parser.tokensOf, List.getLast?_map, Option.map_eq_some_iff] at ht
  obtain ⟨l, hl, rfl⟩ := ht
  obtain ⟨init, rfl⟩ := List.getLast?_eq_some_iff.1 hl
  rw [List.append_assoc] at h
  have hstart : Parser.lastStart? (init ++ [l]) = some l.span.start := by
    simp [Parser.lastStart?]
  rw [hstart]
  exact ⟨m, rfl, rfl, rfl, standsAt_of_lexemes_pair h⟩

theorem Cause.shownAt_of_borneOut (h : lexemes text = front ++ rest)
    (hborne : Grammar.Stop.BorneOut (Parser.tokensOf front) ⟨cause, Parser.tokensOf rest⟩) :
    cause.ShownAt text
      ((⟨rest, Parser.stopOf (lexemes text)⟩ : Parser).blame front cause) rest := by
  cases cause with
  | unexpectedEnd =>
    obtain rfl : rest = [] := List.map_eq_nil_iff.1 hborne
    obtain ⟨before, after, htext, hblank, hstop⟩ := allBlank_after_lexemes text
    exact ⟨rfl, before, after, htext, congrArg Span.point hstop, hblank⟩
  | unexpected expected found =>
    obtain ⟨t, ht, hfound⟩ := hborne
    exact ⟨t, hfound, tokenStandsAt_place h ht⟩
  | functionType => exact absurd hborne id
  | missingLabel => exact tokenStandsAt_place h hborne
  | emptyArray => exact pairStandsAt_place h hborne.1 hborne.2
  | emptyTuple => exact pairStandsAt_place h hborne.1 hborne.2
  | tooDeep limit =>
    obtain ⟨t, ht, hopens⟩ := hborne
    exact ⟨t, hopens, tokenStandsAt_place h ht⟩

/-- A refusal blames a place, and the text shows there what it is blamed for. -/
theorem TypeExpr.Refused.exists_shownAt (h : TypeExpr.Refused text refusal)
    (hne : refusal ≠ .rejected .emptyInput) :
    ∃ span, refusal.fault.span? = some span ∧ refusal.ShownAt text span := by
  cases h with
  | empty => exact absurd rfl hne
  | @arrow front back l hlexemes hl hfront =>
    obtain ⟨t, span⟩ := l
    obtain rfl : t = .arrow := hl
    exact ⟨span, rfl, rfl, standsAt_of_lexemes hlexemes, front, back, hlexemes, hfront⟩
  | @stopped fault p htext harrow hparse =>
    obtain ⟨front, cause, hp, rfl, hborne⟩ := Parser.borneOut_of_parse hparse
    obtain ⟨rest, stop⟩ := p
    obtain ⟨hlexemes, rfl⟩ := Parser.mk.inj hp
    exact ⟨_, rfl, rfl, cause, front, rest, rfl, hlexemes, rfl,
      Cause.shownAt_of_borneOut hlexemes hborne⟩

/-- Whatever remains are the last lexemes of the text. -/
theorem Refusal.ShownAt.remaining_suffix {span : Span} (h : refusal.ShownAt text span) :
    refusal.remaining <:+ spellings (lexemes text) := by
  cases refusal with
  | rejected fault => exact List.nil_suffix
  | stopped fault remaining input =>
    obtain ⟨-, cause, front, rest, -, hlexemes, rfl, -⟩ := h
    have hspellings : spellings (lexemes text) = spellings front ++ spellings rest := by
      rw [hlexemes, spellings, List.map_append, ← spellings, ← spellings]
    exact ⟨_, hspellings.symm⟩

/-- Every refusal but that of the empty text has a span. The span is a part of the text
    (`StandsAt`), whose ends thus lie on characters, and the text shows in it what the cause says
    (`Refusal.ShownAt`). The `remaining` spellings are a suffix of those of `lexemes text`. -/
theorem TypeExpr.shownAt_of_parse (h : TypeExpr.parse text = .error refusal)
    (hne : refusal ≠ .rejected .emptyInput) :
    ∃ span part, refusal.fault.span? = some span ∧ StandsAt text span part ∧
      span.start ≤ span.stop ∧ span.stop ≤ text.utf8ByteSize ∧
      refusal.remaining <:+ spellings (lexemes text) ∧ refusal.ShownAt text span := by
  obtain ⟨span, hspan, hshown⟩ := (parse_eq_error_iff.1 h).exists_shownAt hne
  obtain ⟨part, hstands⟩ := hshown.exists_standsAt
  exact ⟨span, part, hspan, hstands, hstands.start_le_stop, hstands.stop_le,
    hshown.remaining_suffix, hshown⟩

/-- An array without a type, with an ideographic space in it and more behind it. -/
def hollowText : String :=
  "x::[ \u3000] |"

/-- Both brackets are blamed, and the second of them was not read. -/
def hollowRefusal : Refusal :=
  .stopped (.at ⟨3, 9⟩ .emptyArray) ["]", "|"] hollowText

theorem lexemes_hollowText :
    lexemes hollowText = [⟨.identifier "x", 0, 1⟩, ⟨.doubleColon, 1, 3⟩, ⟨.leftBracket, 3, 4⟩,
      ⟨.rightBracket, 8, 9⟩, ⟨.pipe, 10, 11⟩] := by
  rw [lexemes, Scanner.toList_eq_upTo (n := 10) (by decide)]
  rfl

theorem parse_hollowText : TypeExpr.parse hollowText = .error hollowRefusal := by
  have hread : Grammar.read nestingLimit
      [.identifier "x", .doubleColon, .leftBracket, .rightBracket, .pipe]
      = .error ⟨.emptyArray, [.rightBracket, .pipe]⟩ :=
    Grammar.union_eq_error_iff.2 ⟨some (.identifier "x"), _, false, _, rfl, rfl,
      .first (Grammar.variant_eq_error_iff.2 (.inShape rfl (Grammar.shape_eq_error_iff.2
        (.emptyArray [.pipe]))))⟩
  have hparse : (Parser.ofLexemes (lexemes hollowText)).parse
      = (.error (.at ⟨3, 9⟩ .emptyArray), ⟨[⟨.rightBracket, 8, 9⟩, ⟨.pipe, 10, 11⟩], 11⟩) := by
    rw [lexemes_hollowText]
    exact Parser.parse_eq_error_iff.2
      ⟨[⟨.identifier "x", 0, 1⟩, ⟨.doubleColon, 1, 3⟩, ⟨.leftBracket, 3, 4⟩], .emptyArray, rfl,
        hread, rfl⟩
  have harrow : .arrow ∉ Parser.tokensOf (lexemes hollowText) := by
    rw [lexemes_hollowText]
    decide
  have hrefused := TypeExpr.Refused.stopped (by decide) harrow hparse
  exact TypeExpr.parse_eq_error_iff.2 hrefused

/-- The instance at `hollowText`. -/
theorem shownAt_hollowText :
    TypeExpr.parse hollowText = .error hollowRefusal ∧ hollowRefusal ≠ .rejected .emptyInput ∧
      ∃ span part, hollowRefusal.fault.span? = some span ∧ StandsAt hollowText span part ∧
        span.start ≤ span.stop ∧ span.stop ≤ hollowText.utf8ByteSize ∧
        hollowRefusal.remaining <:+ spellings (lexemes hollowText) ∧
        hollowRefusal.ShownAt hollowText span :=
  ⟨parse_hollowText, nofun, TypeExpr.shownAt_of_parse parse_hollowText nofun⟩

end TypeNotation
