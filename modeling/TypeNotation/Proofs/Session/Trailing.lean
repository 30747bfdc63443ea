import TypeNotation.Proofs.Lexeme.Cut
import TypeNotation.Proofs.Parser.Locality
import TypeNotation.Proofs.Session.Run
import TypeNotation.Proofs.TypeExpr.Spacing

set_option autoImplicit false

/-! # What a warning says

A check warns of a specification if it was read and further tokens stand behind what was read. The
place of a warning parts the line into the text that was read, the text of those tokens, and blanks.
Without the last two the line is read as the same type expression, and nothing is left of it. -/

namespace TypeNotation

/-! ## A text with further tokens -/

/-- What is read of a text is also read of the part in front of the lexemes that were left, and of
    that part nothing is left. -/
theorem TypeExpr.parse_front {text before : String} {of : TypeExpr} {front rest : List Lexeme}
    (h : TypeExpr.parse text = .ok (of, rest)) (htext : lexemes text = front ++ rest)
    (hbefore : lexemes before = front) : TypeExpr.parse before = .ok (of, []) := by
  obtain ⟨-, harrow, p, hparse, rfl⟩ := parse_eq_ok_iff.1 h
  obtain ⟨front', hne, hfront', hread⟩ := Parser.exists_front_of_parse hparse
  obtain rfl : front = front' := List.append_cancel_right (htext.symm.trans hfront')
  have hfront := hread [] (Parser.stopOf front) nofun
  rw [List.append_nil, ← hbefore] at hfront
  refine parse_eq_ok_iff.2 ⟨ne_empty_of_lexemes_ne_nil (hbefore ▸ hne), ?_, _, hfront, rfl⟩
  rw [← tokens_lexemes, hbefore]
  rw [← tokens_lexemes, htext, List.map_append] at harrow
  exact fun hmem => harrow (List.mem_append_left _ hmem)

/-! ## The warnings of a check -/

/-- The tokens and the place that are given for the further tokens of a specification are right: the
    line consists of a text that is read as the type expression with nothing left, of a text that
    has these tokens and stands at that place, and of blanks. -/
def Checked.TrailedBy (c : Checked) (tokens : List String) (span : Span) : Prop :=
  ∃ before part after : String, c.line.text = before ++ part ++ after ∧
    span = ⟨before.utf8ByteSize, before.utf8ByteSize + part.utf8ByteSize⟩ ∧ part ≠ "" ∧
    TypeExpr.parse before = .ok (c.value, []) ∧ spellings (lexemes part) = tokens ∧
    AllBlank after.toList

theorem Checked.trailedBy {c : Checked} {rest : List Lexeme} {first last : Lexeme}
    (h : TypeExpr.parse c.line.text = .ok (c.value, rest)) (hfirst : rest.head? = some first)
    (hlast : rest.getLast? = some last) :
    c.TrailedBy (spellings rest) ⟨first.span.start, last.span.stop⟩ := by
  obtain ⟨-, -, p, hparse, hrest⟩ := TypeExpr.parse_eq_ok_iff.1 h
  obtain ⟨front, -, hlexemes, -⟩ := Parser.exists_front_of_parse hparse
  replace hlexemes : lexemes c.line.text = front ++ rest := hrest ▸ hlexemes
  obtain ⟨before, part, after, htext, hstart, hstop, hne, hbefore, htokens, hblank⟩ :=
    exists_parts_of_lexemes hlexemes hfirst hlast
  exact ⟨before, part, after, htext, by rw [hstart, hstop], hne,
    TypeExpr.parse_front h hlexemes hbefore, spellings_eq_of_tokensOf_eq htokens, hblank⟩

theorem Checked.TrailedBy.span_lt {c : Checked} {tokens : List String} {span : Span}
    (h : c.TrailedBy tokens span) :
    span.start < span.stop ∧ span.stop ≤ c.line.text.utf8ByteSize := by
  obtain ⟨before, part, after, htext, rfl, hne, -⟩ := h
  have hpos : part.utf8ByteSize ≠ 0 := by simpa using hne
  rw [htext, String.utf8ByteSize_append, String.utf8ByteSize_append]
  dsimp only
  omega

namespace Session

/-- Each of the `warnings` of `run` is a `trailing` issue in the file of a result of `run`. Its span
    is not empty and lies inside the text of that specification, which is `TrailedBy` the listed
    tokens at that span. A result whose file has no warning was read by `TypeExpr.parse` with no
    lexeme left. -/
theorem trailedBy_of_mem_warnings_run (s : Session) :
    (∀ f ∈ s.run.2.report.warnings, ∃ tokens span, f.issue = .trailing tokens span ∧
        (∃ c ∈ s.run.1, s.specs[f.file]? = some c.line) ∧
        ∀ c ∈ s.run.1, s.specs[f.file]? = some c.line →
          span.start < span.stop ∧ span.stop ≤ c.line.text.utf8ByteSize ∧
            c.TrailedBy tokens span) ∧
      ∀ c ∈ s.run.1, ∀ i, s.specs[i]? = some c.line →
        (∀ f ∈ s.run.2.report.warnings, f.file ≠ i) →
          TypeExpr.parse c.line.text = .ok (c.value, []) := by
  constructor
  · intro f hf
    obtain ⟨x, of, rest, first, last, hx, hread, hfirst, hlast, hissue⟩ := mem_warnings_iff.1 hf
    have hkept : ⟨x, of⟩ ∈ s.run.1 := mem_checked_iff.2 ⟨List.mem_of_getElem? hx, rest, hread⟩
    refine ⟨_, _, hissue, ⟨⟨x, of⟩, hkept, hx⟩, ?_⟩
    intro c hc hline
    obtain rfl : x = c.line := Option.some.inj (hx.symm.trans hline)
    obtain ⟨-, rest', hread'⟩ := mem_checked_iff.1 hc
    cases hread.symm.trans hread'
    have htrailed := Checked.trailedBy hread hfirst hlast
    exact ⟨htrailed.span_lt.1, htrailed.span_lt.2, htrailed⟩
  · intro c hc i hline hwarnings
    obtain ⟨-, rest, hread⟩ := mem_checked_iff.1 hc
    cases hfirst : rest.head? with
    | none =>
      rw [List.head?_eq_none_iff.1 hfirst] at hread
      exact hread
    | some first =>
      -- further tokens would have been a warning
      have hne : rest ≠ [] := by
        rintro rfl
        cases hfirst
      have hlast := List.getLast?_eq_some_getLast hne
      have hwarning : (⟨.trailing (spellings rest) ⟨first.span.start, (rest.getLast hne).span.stop⟩,
          i⟩ : Finding) ∈ s.run.2.report.warnings :=
        mem_warnings_iff.2 ⟨c.line, c.value, rest, first, _, hline, hread, hfirst, hlast, rfl⟩
      exact absurd rfl (hwarnings _ hwarning)

/-- A line with nothing behind its type, and one with more tokens and a byte order mark. -/
def followed : Session :=
  .ofSource "types.txt" "B\n[A] :: B |\uFEFF\n"

theorem specs_followed : followed.specs = [⟨1, "B"⟩, ⟨2, "[A] :: B |\uFEFF"⟩] := by
  decide

theorem parse_followed_first : TypeExpr.parse "B" = .ok ([.named "B"], []) := by
  have hlexemes : lexemes "B" = [⟨.identifier "B", 0, 1⟩] := by
    rw [lexemes, Scanner.toList_eq_upTo (n := 2) (by decide)]
    rfl
  let tree : ExprTree := .mk none false (.last (.bare (.word "B")))
  have hclear : tree.Clear none := ⟨by decide, by decide, by decide, by rintro t ⟨⟩⟩
  refine TypeExpr.parse_eq_ok_iff.2 ⟨by decide, ?_, ⟨[], 1⟩, ?_, rfl⟩
  · rw [← tokens_lexemes, hlexemes]
    decide
  · rw [hlexemes]
    exact Parser.parse_eq_ok_iff.2
      ⟨tree, [⟨.identifier "B", 0, 1⟩], rfl, rfl, hclear, by decide, by decide, rfl⟩

theorem parse_followed_second :
    TypeExpr.parse "[A] :: B |\uFEFF"
      = .ok ([.anonymous (.array [.named "A"])],
          [⟨.doubleColon, 4, 6⟩, ⟨.identifier "B", 7, 8⟩, ⟨.pipe, 9, 10⟩]) := by
  have hlexemes : lexemes "[A] :: B |\uFEFF"
      = [⟨.leftBracket, 0, 1⟩, ⟨.identifier "A", 1, 2⟩, ⟨.rightBracket, 2, 3⟩,
          ⟨.doubleColon, 4, 6⟩, ⟨.identifier "B", 7, 8⟩, ⟨.pipe, 9, 10⟩] := by
    rw [lexemes, Scanner.toList_eq_upTo (n := 12) (by decide)]
    rfl
  let tree : ExprTree :=
    .mk none false (.last (.anonymous (.array (.mk none false (.last (.bare (.word "A")))))))
  have hclear : tree.Clear (some .doubleColon) :=
    ⟨by decide, by decide, by decide, by decide, by decide, by decide, by decide,
      by rintro t ⟨⟩; rfl⟩
  refine TypeExpr.parse_eq_ok_iff.2 ⟨by decide, ?_, ⟨_, 10⟩, ?_, rfl⟩
  · rw [← tokens_lexemes, hlexemes]
    decide
  · rw [hlexemes]
    exact Parser.parse_eq_ok_iff.2
      ⟨tree, [⟨.leftBracket, 0, 1⟩, ⟨.identifier "A", 1, 2⟩, ⟨.rightBracket, 2, 3⟩], rfl, rfl,
        hclear, by decide, by decide, rfl⟩

/-- The instance at `followed`, whose second line has a warning and whose first one has none. -/
theorem trailedBy_of_mem_warnings_run_followed :
    (∃ f ∈ followed.run.2.report.warnings, f.file = 1 ∧
        f.issue = .trailing ["::", "B", "|"] ⟨4, 10⟩) ∧
      (⟨⟨2, "[A] :: B |\uFEFF"⟩, [.anonymous (.array [.named "A"])]⟩ : Checked).TrailedBy
        ["::", "B", "|"] ⟨4, 10⟩ ∧
      (⟨⟨1, "B"⟩, [.named "B"]⟩ : Checked) ∈ followed.run.1 ∧
      (∀ f ∈ followed.run.2.report.warnings, f.file ≠ 0) ∧
      TypeExpr.parse "B" = .ok ([.named "B"], []) := by
  have hfirst : followed.specs[0]? = some ⟨1, "B"⟩ := by rw [specs_followed]; rfl
  have hsecond : followed.specs[1]? = some ⟨2, "[A] :: B |\uFEFF"⟩ := by rw [specs_followed]; rfl
  have hwarned : (⟨.trailing ["::", "B", "|"] ⟨4, 10⟩, 1⟩ : Finding)
      ∈ followed.run.2.report.warnings :=
    mem_warnings_iff.2 ⟨_, _, _, ⟨.doubleColon, 4, 6⟩, ⟨.pipe, 9, 10⟩, hsecond,
      parse_followed_second, rfl, rfl, rfl⟩
  have hkept : (⟨⟨1, "B"⟩, [.named "B"]⟩ : Checked) ∈ followed.run.1 :=
    mem_checked_iff.2 ⟨List.mem_of_getElem? hfirst, [], parse_followed_first⟩
  have hkept' : (⟨⟨2, "[A] :: B |\uFEFF"⟩, [.anonymous (.array [.named "A"])]⟩ : Checked)
      ∈ followed.run.1 :=
    mem_checked_iff.2 ⟨List.mem_of_getElem? hsecond, _, parse_followed_second⟩
  have hsilent : ∀ f ∈ followed.run.2.report.warnings, f.file ≠ 0 := by
    intro f hf hfile
    obtain ⟨x, of, rest, first, last, hx, hread, hhead, -⟩ := mem_warnings_iff.1 hf
    rw [hfile, hfirst] at hx
    cases hx
    cases parse_followed_first.symm.trans hread
    cases hhead
  obtain ⟨tokens, span, hissue, -, htell⟩ := (trailedBy_of_mem_warnings_run followed).1 _ hwarned
  cases hissue
  exact ⟨⟨_, hwarned, rfl, rfl⟩, (htell _ hkept' hsecond).2.2, hkept, hsilent,
    (trailedBy_of_mem_warnings_run followed).2 _ hkept 0 hfirst hsilent⟩

end Session

end TypeNotation
