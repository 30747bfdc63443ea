import TypeNotation.Proofs.Grammar.Complete
import TypeNotation.Proofs.Parser.Accept

set_option autoImplicit false

/-! # What stands behind a type expression

A parser looks one token past what it reads: for a further `|`, for a bracket that would be the
shape of a name, and for a `::` that would make a label of a single token. Behind a type expression
that was read, tokens that begin with none of these can take the place of any others, and the type
expression stays what it is. -/

namespace TypeNotation

/-- The tokens that can carry a type expression on. -/
def Token.continuers : List Token :=
  [.pipe, .doubleColon, .leftBracket, .leftParen, .leftBrace]

theorem Token.ends_iff_not_mem {t : Token} : t.ends = true ↔ t ∉ continuers := by
  rw [Token.ends_iff]
  cases t <;> simp [continuers, opens]

namespace Parser

/-- Wherever a parser stands, what it reads there it also reads in front of other lexemes, and at
    the end, unless they carry the type expression on. -/
theorem exists_front_of_parse {p p' : Parser} {of : TypeExpr} (h : p.parse = (.ok of, p')) :
    ∃ front, front ≠ [] ∧ p.rest = front ++ p'.rest ∧
      ∀ (rest : List Lexeme) (stop : Nat),
        (∀ t ∈ (tokensOf rest).head?, t ∉ Token.continuers) →
          (⟨front ++ rest, stop⟩ : Parser).parse = (.ok of, ⟨rest, stop⟩) := by
  obtain ⟨tree, front, rfl, hfront, hclear, hnesting, hhead, hvalue⟩ := parse_eq_ok_iff.1 h
  refine ⟨front, ?_, rfl, ?_⟩
  · rintro rfl
    exact tree.tokens_ne_nil hfront.symm
  intro rest stop hrest
  have hclear' : tree.Clear (tokensOf rest).head? :=
    hclear.of_ends fun t ht => Token.ends_iff_not_mem.2 (hrest t ht)
  exact parse_eq_ok_iff.2 ⟨tree, front, rfl, hfront, hclear', hnesting, hhead, hvalue⟩

/-- If `Parser.parse` succeeds on `ls`, it has taken some `front` of `ls`, and on `front ++ rest` it
    gives the same type expression and leaves just `rest`, for every `rest` that does not begin with
    `|`, `::` or an opening bracket. -/
theorem parse_front_append {ls : List Lexeme} {of : TypeExpr} {p : Parser}
    (h : (ofLexemes ls).parse = (.ok of, p)) :
    ∃ front, ls = front ++ p.rest ∧
      ∀ rest : List Lexeme,
        (∀ t ∈ (tokensOf rest).head?,
          t ∉ [Token.pipe, .doubleColon, .leftBracket, .leftParen, .leftBrace]) →
          (ofLexemes (front ++ rest)).parse = (.ok of, ⟨rest, stopOf (front ++ rest)⟩) := by
  obtain ⟨front, -, hls, hparse⟩ := exists_front_of_parse h
  exact ⟨front, hls, fun rest hrest => hparse rest (stopOf (front ++ rest)) hrest⟩

/-- The tree of `{k: A} | Item[B] | C`, labelled by a bracket. -/
def bracketTree : ExprTree :=
  .mk (some .leftBracket) false
    (.more (.anonymous (.fields (.last "k" (.mk none false (.last (.bare (.word "A")))) false)))
      (.more (.shaped (.word "Item") (.array (.mk none false (.last (.bare (.word "B"))))))
        (.last (.bare (.word "C")))))

/-- The lexemes of the tree, as they stand in its text. -/
def bracketLexemes : List Lexeme :=
  [⟨.leftBracket, 0, 1⟩, ⟨.doubleColon, 1, 3⟩, ⟨.leftBrace, 4, 5⟩, ⟨.identifier "k", 5, 6⟩,
    ⟨.colon, 6, 7⟩, ⟨.identifier "A", 8, 9⟩, ⟨.rightBrace, 9, 10⟩, ⟨.pipe, 11, 12⟩,
    ⟨.identifier "Item", 13, 17⟩, ⟨.leftBracket, 17, 18⟩, ⟨.identifier "B", 18, 19⟩,
    ⟨.rightBracket, 19, 20⟩, ⟨.pipe, 21, 22⟩, ⟨.identifier "C", 23, 24⟩]

/-- The type expression of the tree. -/
def bracketExpr : TypeExpr :=
  [.anonymous (.fields [.mk "k" [.named "A"]] false),
    .mk (some "Item") (some (.array [.named "B"])), .named "C"]

/-- The instance at `bracketLexemes`: the comma behind the last name gives way to another name with
    a bracket, and to nothing. -/
theorem parse_front_append_bracket :
    (ofLexemes (bracketLexemes ++ [⟨.comma, 24, 25⟩])).parse
        = (.ok bracketExpr, ⟨[⟨.comma, 24, 25⟩], 25⟩) ∧
      (ofLexemes (bracketLexemes ++ [⟨.identifier "D", 25, 26⟩, ⟨.leftParen, 26, 27⟩])).parse
        = (.ok bracketExpr, ⟨[⟨.identifier "D", 25, 26⟩, ⟨.leftParen, 26, 27⟩], 27⟩) ∧
      (ofLexemes (bracketLexemes ++ [])).parse = (.ok bracketExpr, ⟨[], 24⟩) := by
  have hclear : bracketTree.Clear (some .comma) := by
    simp [bracketTree, ExprTree.Clear, VariantsTree.Clear, VariantTree.Clear, ShapeTree.Clear,
      FieldsTree.Clear, ExprTree.tokens, VariantsTree.tokens, VariantTree.tokens, ShapeTree.tokens,
      labelTokens, maybeTokens, maybeToken, commaTokens, Name.token, Token.opens]
  have hparse : (ofLexemes (bracketLexemes ++ [⟨.comma, 24, 25⟩])).parse
      = (.ok bracketExpr, ⟨[⟨.comma, 24, 25⟩], 25⟩) :=
    parse_eq_ok_iff.2
      ⟨bracketTree, bracketLexemes, rfl, rfl, hclear, by decide, by decide, rfl⟩
  obtain ⟨front, hfront, happend⟩ := parse_front_append hparse
  obtain rfl : bracketLexemes = front := List.append_cancel_right hfront
  exact ⟨hparse, happend _ (by decide), happend [] (by decide)⟩

end Parser

end TypeNotation
