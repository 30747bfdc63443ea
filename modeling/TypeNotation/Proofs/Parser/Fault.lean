import TypeNotation.Proofs.Grammar.Complete
import TypeNotation.Proofs.Parser.Accept

set_option autoImplicit false

/-! # When a parser fails

A parser that fails has stopped inside the lexemes in front of it, with the cause that the grammar
gives, and blames the place where it stopped (`Parser.parse_eq_error_iff`). Coming to the end is the
one fault that further lexemes can mend, and there are always some that do. -/

namespace TypeNotation.Parser

theorem parse_eq_error_iff {p p' : Parser} {fault : Fault} :
    p.parse = (.error fault, p') ↔
      ∃ (front : List Lexeme) (cause : Cause),
        p = ⟨front ++ p'.rest, p'.stop⟩ ∧
          Grammar.read nestingLimit (tokensOf p.rest) = .error ⟨cause, tokensOf p'.rest⟩ ∧
          fault = .at (p'.blame front cause) cause := by
  constructor
  · intro h
    unfold parse at h
    split at h
    · cases h
    · next stop hread =>
      obtain ⟨cause, rest⟩ := stop
      obtain ⟨before, htokens, -⟩ := Grammar.read_within hread
      obtain ⟨front, back, hsplit, -, rfl⟩ := List.map_eq_append_iff.1 htokens
      obtain ⟨ls, stop⟩ := p
      obtain rfl : ls = front ++ back := hsplit
      rw [List.length_map, splitLast_length] at h
      cases h
      exact ⟨front, cause, rfl, hread, rfl⟩
  · rintro ⟨front, cause, rfl, hread, rfl⟩
    unfold parse
    split
    · next hread' => cases hread.symm.trans hread'
    · next hread' =>
      cases hread.symm.trans hread'
      simp only [tokensOf, List.length_map, splitLast_length]

/-- What was read and what is left bear the cause out. -/
theorem borneOut_of_parse {p p' : Parser} {fault : Fault} (h : p.parse = (.error fault, p')) :
    ∃ (front : List Lexeme) (cause : Cause),
      p = ⟨front ++ p'.rest, p'.stop⟩ ∧ fault = .at (p'.blame front cause) cause ∧
        Grammar.Stop.BorneOut (tokensOf front) ⟨cause, tokensOf p'.rest⟩ := by
  obtain ⟨front, cause, rfl, hread, hfault⟩ := parse_eq_error_iff.1 h
  obtain ⟨before, htokens, hborne⟩ := Grammar.read_within hread
  rw [tokensOf_append, List.append_left_inj] at htokens
  exact ⟨front, cause, rfl, hfault, htokens ▸ hborne⟩

/-! ## Further lexemes -/

/-- Where something is left, the place to blame is found there. -/
theorem blame_append {rest : List Lexeme} (hrest : rest ≠ []) (more front : List Lexeme)
    (stop stop' : Nat) (cause : Cause) :
    (⟨rest ++ more, stop'⟩ : Parser).blame front cause
      = (⟨rest, stop⟩ : Parser).blame front cause := by
  cases rest with
  | nil => exact absurd rfl hrest
  | cons l after => rfl

theorem parse_eq_ok_of_read {p : Parser} {tree : ExprTree}
    (h : Grammar.read nestingLimit (tokensOf p.rest) = .ok (tree, [])) :
    p.parse = (.ok tree.value, ⟨[], p.stop⟩) := by
  obtain ⟨htokens, hclear, hnesting, hhead⟩ := Grammar.read_eq_ok_iff.1 h
  rw [List.append_nil] at htokens
  refine parse_eq_ok_iff.2 ⟨tree, p.rest, ?_, htokens, hclear, hnesting, hhead, rfl⟩
  rw [List.append_nil]

/-- Lexemes for some tokens that stand nowhere. -/
def unplaced (ts : List Token) : List Lexeme :=
  ts.map fun t => ⟨t, .point 0⟩

@[simp]
theorem tokensOf_unplaced (ts : List Token) : tokensOf (unplaced ts) = ts := by
  simp [tokensOf, unplaced, Function.comp_def]

/-- Lexemes that end too early are the beginning of something that is read to its end. -/
theorem exists_parse_append {ls : List Lexeme} {span : Span} {p : Parser}
    (h : (ofLexemes ls).parse = (.error (.at span .unexpectedEnd), p)) :
    ∃ (more : List Lexeme) (of : TypeExpr) (stop : Nat),
      more ≠ [] ∧ .doubleColon ∉ tokensOf more ∧
        (ofLexemes (ls ++ more)).parse = (.ok of, ⟨[], stop⟩) := by
  obtain ⟨front, cause, -, hread, hfault⟩ := parse_eq_error_iff.1 h
  obtain rfl : cause = .unexpectedEnd := (Fault.at.inj hfault).2.symm
  obtain ⟨more, tree, hmore, htree⟩ := Grammar.exists_read_append hread rfl
  have hparse : (ofLexemes (ls ++ unplaced more)).parse
      = (.ok tree.value, ⟨[], stopOf (ls ++ unplaced more)⟩) := by
    apply parse_eq_ok_of_read
    rw [ofLexemes, tokensOf_append, tokensOf_unplaced]
    exact htree
  refine ⟨unplaced more, tree.value, _, ?_, by rwa [tokensOf_unplaced], hparse⟩
  intro hnil
  rw [hnil, List.append_nil, h] at hparse
  cases hparse

/-- Any fault but the end of the lexemes is found again when there are more of them. -/
theorem parse_append_of_error {ls more : List Lexeme} {fault : Fault} {p : Parser}
    (h : (ofLexemes ls).parse = (.error fault, p))
    (hfault : ¬∃ span, fault = .at span .unexpectedEnd)
    (hmore : (tokensOf more).head? ≠ some .doubleColon) :
    (ofLexemes (ls ++ more)).parse = (.error fault, ⟨p.rest ++ more, stopOf (ls ++ more)⟩) := by
  obtain ⟨front, cause, hp, hread, rfl⟩ := parse_eq_error_iff.1 h
  obtain rfl : ls = front ++ p.rest := congrArg Parser.rest hp
  have hcause : cause ≠ .unexpectedEnd := by
    rintro rfl
    exact hfault ⟨_, rfl⟩
  have hrest : p.rest ≠ [] := by
    intro hnil
    have hne := (Grammar.read_within hread).ne_nil hcause
    rw [hnil] at hne
    exact hne rfl
  have hread' := Grammar.read_append_of_error hread hcause hmore
  refine parse_eq_error_iff.2 ⟨front, cause, ?_, ?_, ?_⟩
  · rw [ofLexemes, List.append_assoc]
  · rw [ofLexemes, tokensOf_append (front ++ p.rest) more, tokensOf_append p.rest more]
    exact hread'
  · rw [blame_append hrest more front p.stop]

/-- If `Parser.parse` fails with the cause `unexpectedEnd`, some non-empty `more` without
    `doubleColon` makes `ls ++ more` a specification that is read to its end. If it fails with any
    other cause, `ls ++ more` fails with the same `Fault` and leaves `p.rest ++ more`, for every
    `more` that does not begin with `doubleColon`. -/
theorem parse_append_of_fault {ls : List Lexeme} {fault : Fault} {p : Parser}
    (h : (ofLexemes ls).parse = (.error fault, p)) :
    ((∃ span, fault = .at span .unexpectedEnd) →
        ∃ (more : List Lexeme) (of : TypeExpr) (stop : Nat),
          more ≠ [] ∧ .doubleColon ∉ tokensOf more ∧
            (ofLexemes (ls ++ more)).parse = (.ok of, ⟨[], stop⟩)) ∧
      ((¬∃ span, fault = .at span .unexpectedEnd) →
        ∀ more : List Lexeme, (tokensOf more).head? ≠ some .doubleColon →
          (ofLexemes (ls ++ more)).parse
            = (.error fault, ⟨p.rest ++ more, stopOf (ls ++ more)⟩)) := by
  constructor
  · rintro ⟨span, rfl⟩
    exact exists_parse_append h
  · intro hfault more hmore
    exact parse_append_of_error h hfault hmore

/-- The lexemes of `[{x: Maybe`. -/
def openLexemes : List Lexeme :=
  [⟨.leftBracket, 0, 1⟩, ⟨.leftBrace, 1, 2⟩, ⟨.identifier "x", 2, 3⟩, ⟨.colon, 3, 4⟩,
    ⟨maybeToken, 5, 10⟩]

/-- Behind `[{x: Maybe` a variant is read, two shapes deep. -/
theorem read_openLexemes {ts : List Token} {stop : Grammar.Stop}
    (hts : ts.head? ≠ some .doubleColon)
    (h : Grammar.VariantStop (Grammar.shapeAt 128 126) ts stop) :
    Grammar.read nestingLimit (tokensOf openLexemes ++ ts) = .error stop := by
  have hnone : Grammar.takeLabel [maybeToken] = (none, [maybeToken]) := rfl
  have hlabel : Grammar.takeLabel (maybeToken :: ts) = (none, maybeToken :: ts) :=
    Grammar.takeLabel_append hnone (List.cons_ne_nil _ _) hts
  have hmaybe : (Grammar.union (Grammar.shapeAt 128 126)).read (maybeToken :: ts) = .error stop :=
    Grammar.union_eq_error_iff.2 ⟨none, _, true, ts, hlabel, by simp [Grammar.takeMaybe],
      .first (Grammar.variant_eq_error_iff.2 h)⟩
  have hfields : (Grammar.shapeAt 128 127).read
      (.leftBrace :: .identifier "x" :: .colon :: maybeToken :: ts) = .error stop :=
    Grammar.shape_eq_error_iff.2 (.inFields (.inField "x" hmaybe))
  have harray : (Grammar.shapeAt 128 128).read (tokensOf openLexemes ++ ts) = .error stop :=
    Grammar.shape_eq_error_iff.2 (.inArray (by simp) (Grammar.union_eq_error_iff.2
      ⟨none, _, false, _, rfl, rfl,
        .first (Grammar.variant_eq_error_iff.2 (.inShape rfl hfields))⟩))
  exact Grammar.union_eq_error_iff.2
    ⟨none, _, false, _, rfl, rfl, .first (Grammar.variant_eq_error_iff.2 (.inShape rfl harray))⟩

theorem parse_openLexemes :
    (ofLexemes openLexemes).parse = (.error (.at (.point 10) .unexpectedEnd), ⟨[], 10⟩) :=
  parse_eq_error_iff.2 ⟨openLexemes, .unexpectedEnd, rfl, read_openLexemes nofun .atEnd, rfl⟩

/-- A bracket that closes nothing. -/
theorem parse_openLexemes_paren :
    (ofLexemes (openLexemes ++ [⟨.rightParen, 11, 12⟩])).parse
      = (.error (.at ⟨11, 12⟩ (.unexpected .type ")")), ⟨[⟨.rightParen, 11, 12⟩], 12⟩) := by
  have hparen : Grammar.VariantStop (Grammar.shapeAt 128 126) [.rightParen]
      (Grammar.unexpected .type [.rightParen]) :=
    .inShape rfl (Grammar.shape_eq_error_iff.2 (.noShape rfl))
  exact parse_eq_error_iff.2 ⟨openLexemes, _, rfl, read_openLexemes (by decide) hparen, rfl⟩

/-- Both instances at `openLexemes`: they end too early, and with a parenthesis behind them they
    fail at it. -/
theorem parse_append_openLexemes :
    (∃ (more : List Lexeme) (of : TypeExpr) (stop : Nat),
        more ≠ [] ∧ .doubleColon ∉ tokensOf more ∧
          (ofLexemes (openLexemes ++ more)).parse = (.ok of, ⟨[], stop⟩)) ∧
      (ofLexemes (openLexemes ++ [⟨.rightParen, 11, 12⟩] ++ [⟨.pipe, 12, 13⟩])).parse
        = (.error (.at ⟨11, 12⟩ (.unexpected .type ")")),
            ⟨[⟨.rightParen, 11, 12⟩, ⟨.pipe, 12, 13⟩], 13⟩) :=
  ⟨(parse_append_of_fault parse_openLexemes).1 ⟨_, rfl⟩,
    (parse_append_of_fault parse_openLexemes_paren).2 (by simp) [⟨.pipe, 12, 13⟩] (by decide)⟩

end TypeNotation.Parser
