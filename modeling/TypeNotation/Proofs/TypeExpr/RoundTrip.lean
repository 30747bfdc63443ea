import TypeNotation.Proofs.Parser.Accept
import TypeNotation.Proofs.TypeExpr.Irredundant
import TypeNotation.Proofs.TypeExpr.Spelling

set_option autoImplicit false

/-! # Writing and reading again

Reading the canonical text of a type expression gives its normal form, and what has been read is in
normal form already. So the canonical text of what has been read is read as the same again. -/

namespace TypeNotation.TypeExpr

/-! ## What is read is in normal form -/

/-- What has been read can be written, and is in normal form. -/
theorem printable_of_parse {text : String} {of : TypeExpr} {ls : List Lexeme}
    (h : TypeExpr.parse text = .ok (of, ls)) :
    Printable of ∧ nesting of ≤ nestingLimit ∧ norm of = of := by
  obtain ⟨-, -, p, hparse, rfl⟩ := parse_eq_ok_iff.1 h
  obtain ⟨tree, front, hp, hfront, hclear, hnesting, -, rfl⟩ := Parser.parse_eq_ok_iff.1 hparse
  have hlexemes : lexemes text = front ++ p.rest := congrArg Parser.rest hp
  have hlegible : ∀ t ∈ tree.tokens, t.Legible := by
    intro t ht
    have hmem : t ∈ tokensIn text.toList := by
      rw [← hfront] at ht
      rw [← tokens_lexemes, hlexemes, List.map_append]
      exact List.mem_append_left _ ht
    exact legible_of_mem_tokensIn hmem
  rw [tree.value_eq]
  exact ⟨(hclear.printable hlegible).norm,
    Nat.le_trans (nesting_norm_le _) (Nat.le_trans tree.nesting_written_le hnesting), norm_norm _⟩

/-! ## What is written is read as its normal form -/

/-- A type expression with variants that are covered, at the top and deeper down. -/
def repeatedExpr : TypeExpr :=
  [.named "A", .mk (some "A") (some (.array [.named "*"])),
    .anonymous (.tuple [[.named "B", .named "Maybe", .named "B"]]),
    .anonymous (.fields [.mk "k" [.named "*", .named "*"]] true)]

theorem repeatedExpr_printable : Printable repeatedExpr := by
  have hstar : IsName "*" := Or.inl rfl
  have hA : IsName "A" := Or.inr (by decide)
  have hB : IsName "B" := Or.inr (by decide)
  have hMaybe : IsName "Maybe" := Or.inr (by decide)
  have hk : IsWord "k" := by decide
  simp [repeatedExpr, Printable, startsPlain_cons, PrintableVariants, PrintableSlots,
    PrintableFields, Variant.Printable, Shape.Printable, Field.Printable, Variant.named,
    Variant.anonymous, Variant.name, hstar, hA, hB, hMaybe, hk]

/-- `TypeExpr.parse` reads the canonical text of a `Printable` type expression with `nesting` at
    most `nestingLimit` to its end, and gives its normal form `norm of`. -/
theorem parse_text_of_printable {of : TypeExpr} (h : Printable of)
    (hnesting : nesting of ≤ nestingLimit) : TypeExpr.parse (text of) = .ok (norm of, []) := by
  obtain ⟨tree, htree, rfl, hdepth, htokens⟩ := h.exists_tree
  exact parse_eq_ok_of_unambiguous htree (hdepth ▸ hnesting) htokens

/-- The instance at `repeatedExpr`, in which `Maybe` is a name because it is not the first one. -/
theorem parse_text_repeatedExpr :
    Printable repeatedExpr ∧ nesting repeatedExpr ≤ nestingLimit ∧
      text repeatedExpr = "A | A[*] | (B | Maybe | B) | \x7bk: * | *, ...\x7d" ∧
      TypeExpr.parse (text repeatedExpr)
        = .ok ([.named "A", .anonymous (.tuple [[.named "B", .named "Maybe"]]),
            .anonymous (.fields [.mk "k" [.named "*"]] true)], []) :=
  ⟨repeatedExpr_printable, by decide, rfl,
    parse_text_of_printable repeatedExpr_printable (by decide)⟩

/-! ## What is read is written and read again -/

/-- A specification with a label, `Maybe`, a repeated key and a covered variant, and a token behind
    it. -/
def labelledText : String :=
  "x::Maybe \x7bk: A, j: B | B[*], k: C\x7d ]"

/-- The tree of `labelledText`, less its last token. -/
def labelledTree : ExprTree :=
  .mk (some (.identifier "x")) true (.last (.anonymous (.fields
    (.more "k" (.mk none false (.last (.bare (.word "A")))) true
      (.more "j"
        (.mk none false (.more (.bare (.word "B"))
          (.last (.shaped (.word "B") (.array (.mk none false (.last (.bare .star)))))))) true
        (.last "k" (.mk none false (.last (.bare (.word "C")))) false))))))

/-- The key `k` stands where it first occurs, with its last type. -/
def labelledExpr : TypeExpr :=
  [.named "Undefined", .named "Null",
    .anonymous (.fields [.mk "k" [.named "C"], .mk "j" [.named "B"]] false)]

theorem labelledTree_unambiguous : labelledTree.Unambiguous := by
  simp [labelledTree, ExprTree.Unambiguous, VariantsTree.Unambiguous, VariantTree.Unambiguous,
    ShapeTree.Unambiguous, FieldsTree.Unambiguous, ExprTree.tokens, VariantsTree.tokens,
    VariantTree.tokens, ShapeTree.tokens, labelTokens, maybeTokens, maybeToken, Name.token,
    Token.isLabel]

theorem parse_labelledText :
    TypeExpr.parse labelledText = .ok (labelledExpr, [⟨.rightBracket, 35, 36⟩]) := by
  have hlexemes : lexemes labelledText = (Scanner.ofString labelledText).upTo 37 :=
    Scanner.toList_eq_upTo (by decide)
  have htokens : tokensIn labelledText.toList = labelledTree.tokens ++ [.rightBracket] := by
    rw [← tokens_lexemes, hlexemes]
    rfl
  have hfront : Parser.tokensOf ((lexemes labelledText).take 21) = labelledTree.tokens := by
    rw [hlexemes]
    rfl
  have hrest : (lexemes labelledText).take 21 ++ [⟨.rightBracket, 35, 36⟩]
      = lexemes labelledText := by
    rw [hlexemes]
    rfl
  have hparse := Parser.parse_eq_ok_of_unambiguous ((lexemes labelledText).take 21)
    ⟨[⟨.rightBracket, 35, 36⟩], Parser.stopOf (lexemes labelledText)⟩ labelledTree_unambiguous
    (by decide) hfront (labelledTree.endsBefore_of_ends rfl)
  rw [hrest] at hparse
  exact parse_eq_ok_iff.2 ⟨by decide, by rw [htokens]; decide, _, hparse, rfl⟩

/-- Whatever `TypeExpr.parse` gives for some text `s`, with any lexemes `ls` left, it gives again
    for the canonical `text of`, with none left. -/
theorem parse_text_of_parse {s : String} {of : TypeExpr} {ls : List Lexeme}
    (h : TypeExpr.parse s = .ok (of, ls)) : TypeExpr.parse (text of) = .ok (of, []) := by
  obtain ⟨hprintable, hnesting, hnorm⟩ := printable_of_parse h
  obtain ⟨tree, htree, rfl, hdepth, htokens⟩ := hprintable.exists_tree
  rw [parse_eq_ok_of_unambiguous htree (hdepth ▸ hnesting) htokens, hnorm]

/-- The instance at `labelledText`, behind which a bracket is left. -/
theorem parse_text_labelledExpr :
    TypeExpr.parse labelledText = .ok (labelledExpr, [⟨.rightBracket, 35, 36⟩]) ∧
      text labelledExpr = "Undefined | Null | \x7bk: C, j: B\x7d" ∧
      TypeExpr.parse (text labelledExpr) = .ok (labelledExpr, []) :=
  ⟨parse_labelledText, rfl, parse_text_of_parse parse_labelledText⟩

/-! ## What can be read

Which type expressions some text stands for, said without reading a text: those that can be written
and have no covered variants at any depth. -/

/-- The type expressions that `TypeExpr.parse` gives for some text are those that are `Printable`
    and `Irredundant` and have `nesting` at most `nestingLimit`. -/
theorem exists_parse_eq_ok_iff {of : TypeExpr} :
    (∃ (text : String) (ls : List Lexeme), TypeExpr.parse text = .ok (of, ls)) ↔
      Printable of ∧ Irredundant of ∧ nesting of ≤ nestingLimit := by
  constructor
  · rintro ⟨text, ls, h⟩
    obtain ⟨hprintable, hnesting, hnorm⟩ := printable_of_parse h
    exact ⟨hprintable, norm_eq_self_iff.1 hnorm, hnesting⟩
  · rintro ⟨hprintable, hirredundant, hnesting⟩
    have hnorm : norm of = of := norm_eq_self_iff.2 hirredundant
    obtain ⟨tree, htree, rfl, hdepth, htokens⟩ := hprintable.exists_tree
    have hparse := parse_eq_ok_of_unambiguous htree (hdepth ▸ hnesting) htokens
    rw [hnorm] at hparse
    exact ⟨text tree.written, [], hparse⟩

end TypeNotation.TypeExpr
