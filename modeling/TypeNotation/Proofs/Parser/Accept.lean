import TypeNotation.Parser
import TypeNotation.Proofs.Grammar.Exact
import TypeNotation.Proofs.Grammar.Unambiguous
import TypeNotation.Proofs.Grammar.Written
import TypeNotation.Proofs.Lexeme.Scan

set_option autoImplicit false

/-! # What a parser accepts

A parser gives a type expression exactly if the lexemes in front of it begin with the tokens of a
tree that can be read back, and it then stands behind them (`Parser.parse_eq_ok_iff`). So whatever
is accepted has a derivation in the grammar, and means what that derivation says. A whole text is
read in this way once it is known to hold no arrow. -/

namespace TypeNotation

namespace Parser

/-- The tokens of some lexemes. -/
def tokensOf (ls : List Lexeme) : List Token :=
  ls.map (·.token)

@[simp]
theorem tokensOf_append (ls ls' : List Lexeme) :
    tokensOf (ls ++ ls') = tokensOf ls ++ tokensOf ls' :=
  List.map_append

theorem splitLast_length (front back : List Lexeme) (stop : Nat) :
    (⟨front ++ back, stop⟩ : Parser).splitLast back.length = (front, ⟨back, stop⟩) := by
  simp [splitLast]

theorem parse_eq_ok_iff {p p' : Parser} {of : TypeExpr} :
    p.parse = (.ok of, p') ↔
      ∃ (tree : ExprTree) (front : List Lexeme),
        p = ⟨front ++ p'.rest, p'.stop⟩ ∧ tokensOf front = tree.tokens ∧
          tree.Clear (tokensOf p'.rest).head? ∧ tree.nesting ≤ nestingLimit ∧
          tree.tokens.head? ≠ some .doubleColon ∧ tree.value = of := by
  constructor
  · intro h
    unfold parse at h
    split at h
    · next tree rest hread =>
      obtain ⟨htokens, hclear, hnesting, hhead⟩ := Grammar.read_eq_ok_iff.1 hread
      obtain ⟨front, back, hsplit, hfront, rfl⟩ := List.map_eq_append_iff.1 htokens
      obtain ⟨ls, stop⟩ := p
      obtain rfl : ls = front ++ back := hsplit
      rw [List.length_map, splitLast_length] at h
      cases h
      exact ⟨tree, front, rfl, hfront, hclear, hnesting, hhead, rfl⟩
    · cases h
  · rintro ⟨tree, front, rfl, hfront, hclear, hnesting, hhead, rfl⟩
    have hread : Grammar.read nestingLimit (tokensOf (front ++ p'.rest))
        = .ok (tree, tokensOf p'.rest) :=
      Grammar.read_eq_ok_iff.2 ⟨by rw [tokensOf_append, hfront], hclear, hnesting, hhead⟩
    unfold parse
    split
    · next hread' =>
      cases hread.symm.trans hread'
      rw [tokensOf, List.length_map, splitLast_length]
    · next hread' => cases hread.symm.trans hread'

/-- A parser reads an unambiguous tree back in front of a token that does not carry it on. -/
theorem parse_eq_ok_of_unambiguous (front : List Lexeme) (p : Parser) {tree : ExprTree}
    (h : tree.Unambiguous) (hnesting : tree.nesting ≤ nestingLimit)
    (hfront : tokensOf front = tree.tokens) (hend : tree.EndsBefore (tokensOf p.rest).head?) :
    (⟨front ++ p.rest, p.stop⟩ : Parser).parse = (.ok (TypeExpr.norm tree.written), p) :=
  parse_eq_ok_iff.2 ⟨tree, front, rfl, hfront, h.clear hend, hnesting,
    h.startUnion_tokens.head?_ne rfl, tree.value_eq⟩

/-! ## Soundness and completeness -/

/-- The tree of `(A B[*], {k: C, k: Maybe Null})`. -/
def pairTree : ExprTree :=
  .mk none false (.last (.anonymous (.tuple
    (.more (.mk none false (.last (.bare (.word "A")))) false
      (.more
        (.mk none false (.last (.shaped (.word "B")
          (.array (.mk none false (.last (.bare .star))))))) true
        (.last
          (.mk none false (.last (.anonymous (.fields
            (.more "k" (.mk none false (.last (.bare (.word "C")))) true
              (.last "k" (.mk none true (.last (.bare (.word "Null")))) false)))))) false))))))

/-- The lexemes of the tree, as they stand in its text. -/
def pairLexemes : List Lexeme :=
  [⟨.leftParen, 0, 1⟩, ⟨.identifier "A", 1, 2⟩, ⟨.identifier "B", 3, 4⟩, ⟨.leftBracket, 4, 5⟩,
    ⟨.star, 5, 6⟩, ⟨.rightBracket, 6, 7⟩, ⟨.comma, 7, 8⟩, ⟨.leftBrace, 9, 10⟩,
    ⟨.identifier "k", 10, 11⟩, ⟨.colon, 11, 12⟩, ⟨.identifier "C", 13, 14⟩, ⟨.comma, 14, 15⟩,
    ⟨.identifier "k", 16, 17⟩, ⟨.colon, 17, 18⟩, ⟨.identifier "Maybe", 19, 24⟩,
    ⟨.identifier "Null", 25, 29⟩, ⟨.rightBrace, 29, 30⟩, ⟨.rightParen, 30, 31⟩]

/-- What the pair stands for: the last `k` counts, and its `Null` is there only once. -/
def pairExpr : TypeExpr :=
  [.anonymous (.tuple [[.named "A"], [.mk (some "B") (some (.array [.named "*"]))],
    [.anonymous (.fields [.mk "k" [.named "Undefined", .named "Null"]] false)]])]

theorem pairTree_unambiguous : pairTree.Unambiguous := by
  simp [pairTree, ExprTree.Unambiguous, VariantsTree.Unambiguous, VariantTree.Unambiguous,
    ShapeTree.Unambiguous, SlotsTree.Unambiguous, FieldsTree.Unambiguous, ExprTree.tokens,
    VariantsTree.tokens, VariantTree.tokens, ShapeTree.tokens, SlotsTree.tokens, labelTokens,
    maybeTokens, maybeToken, Name.token, Grammar.startsShape, Token.opens]

/-- If `Parser.parse` succeeds, the lexemes that it takes are the `tokens` of an `ExprTree` with
    `nesting` at most `nestingLimit`, and the result is the normal form of what is `written` in that
    tree. -/
theorem exists_tree_of_parse {ls : List Lexeme} {of : TypeExpr} {p : Parser}
    (h : (ofLexemes ls).parse = (.ok of, p)) :
    ∃ (tree : ExprTree) (front : List Lexeme),
      ls = front ++ p.rest ∧ tokensOf front = tree.tokens ∧ tree.nesting ≤ nestingLimit ∧
        of = TypeExpr.norm tree.written := by
  obtain ⟨tree, front, hp, hfront, -, hnesting, -, hvalue⟩ := parse_eq_ok_iff.1 h
  exact ⟨tree, front, congrArg Parser.rest hp, hfront, hnesting, by rw [← hvalue, tree.value_eq]⟩

/-- The instance at `pairLexemes`, in front of a `::` that is not read. -/
theorem exists_tree_of_parse_pair :
    (ofLexemes (pairLexemes ++ [⟨.doubleColon, 32, 34⟩])).parse
        = (.ok pairExpr, ⟨[⟨.doubleColon, 32, 34⟩], 34⟩) ∧
      ∃ (tree : ExprTree) (front : List Lexeme),
        pairLexemes ++ [⟨.doubleColon, 32, 34⟩] = front ++ [⟨.doubleColon, 32, 34⟩] ∧
          tokensOf front = tree.tokens ∧ tree.nesting ≤ nestingLimit ∧
          pairExpr = TypeExpr.norm tree.written := by
  have h : (ofLexemes (pairLexemes ++ [⟨.doubleColon, 32, 34⟩])).parse
      = (.ok pairExpr, ⟨[⟨.doubleColon, 32, 34⟩], 34⟩) :=
    parse_eq_ok_of_unambiguous pairLexemes ⟨[⟨.doubleColon, 32, 34⟩], 34⟩ pairTree_unambiguous
      (by decide) rfl ⟨by decide, by decide, fun name hname => by cases congrArg List.length hname⟩
  exact ⟨h, exists_tree_of_parse h⟩

/-- `Parser.parse` reads the tokens of an `Unambiguous` tree with `nesting` at most `nestingLimit`,
    gives the normal form of what is `written` in it, and leaves just `rest`, provided that `rest`
    does not carry the tree on: by `|`, by a bracket if the tree `endsBare`, or by `::` if the tree
    is a single name. -/
theorem parse_append_of_unambiguous {tree : ExprTree} (h : tree.Unambiguous)
    (hnesting : tree.nesting ≤ nestingLimit) {front rest : List Lexeme}
    (hfront : tokensOf front = tree.tokens) (hpipe : (tokensOf rest).head? ≠ some .pipe)
    (hopens : tree.endsBare = true → ∀ t ∈ (tokensOf rest).head?, t.opens = false)
    (hcolon : ∀ name : Name, tree.tokens = [name.token] →
      (tokensOf rest).head? ≠ some .doubleColon) :
    (ofLexemes (front ++ rest)).parse
      = (.ok (TypeExpr.norm tree.written), ⟨rest, stopOf (front ++ rest)⟩) :=
  parse_eq_ok_of_unambiguous front ⟨rest, stopOf (front ++ rest)⟩ h hnesting hfront
    ⟨hpipe, hopens, hcolon⟩

/-- The instance at `pairTree`: it is more than a name, so the `::` behind it does not make it a
    label. -/
theorem parse_append_pair :
    pairTree.Unambiguous ∧ pairTree.nesting ≤ nestingLimit ∧
      tokensOf pairLexemes = pairTree.tokens ∧ pairTree.endsBare = false ∧
      (ofLexemes (pairLexemes ++ [⟨.doubleColon, 32, 34⟩])).parse
        = (.ok pairExpr, ⟨[⟨.doubleColon, 32, 34⟩], 34⟩) :=
  ⟨pairTree_unambiguous, by decide, rfl, rfl,
    parse_append_of_unambiguous pairTree_unambiguous (by decide) rfl (by decide)
      (fun hbare => by cases hbare) (fun name hname => by cases congrArg List.length hname)⟩

end Parser

/-! ## Reading a whole text -/

namespace TypeExpr

/-- A text is read if it is not empty and holds no arrow, as far as a parser gets. -/
theorem parse_eq_ok_iff {text : String} {of : TypeExpr} {ls : List Lexeme} :
    TypeExpr.parse text = .ok (of, ls) ↔
      text ≠ "" ∧ .arrow ∉ tokensIn text.toList ∧
        ∃ p, (Parser.ofLexemes (lexemes text)).parse = (.ok of, p) ∧ p.rest = ls := by
  have harrow : .arrow ∈ tokensIn text.toList ↔ ∃ l ∈ lexemes text, l.token = .arrow := by
    rw [← tokens_lexemes, List.mem_map]
  rw [harrow, TypeExpr.parse]
  by_cases hempty : text.isEmpty = true
  · simp [String.isEmpty_iff.1 hempty]
  · have hne : text ≠ "" := fun h => hempty (String.isEmpty_iff.2 h)
    cases hfind : (lexemes text).find? (·.token = .arrow) with
    | some arrow =>
      have hmem : ∃ l ∈ lexemes text, l.token = .arrow :=
        ⟨arrow, List.mem_of_find?_eq_some hfind, by simpa using List.find?_some hfind⟩
      simp [hempty, hfind, hmem]
    | none =>
      have hmem : ¬∃ l ∈ lexemes text, l.token = .arrow := by simpa using hfind
      rcases hparse : (Parser.ofLexemes (lexemes text)).parse with ⟨_ | _, p⟩ <;>
        simp [hempty, hfind, hmem, hne, hparse]

theorem parse_eq_ok_of_unambiguous {text : String} {tree : ExprTree} (h : tree.Unambiguous)
    (hnesting : tree.nesting ≤ nestingLimit) (htokens : tokensIn text.toList = tree.tokens) :
    TypeExpr.parse text = .ok (norm tree.written, []) := by
  refine parse_eq_ok_iff.2 ⟨?_, htokens ▸ h.arrow_not_mem, ?_⟩
  · rintro rfl
    exact tree.tokens_ne_nil (htokens.symm.trans tokensIn_nil)
  · have hend : tree.EndsBefore none := ⟨nofun, fun _ => nofun, fun _ _ => nofun⟩
    have hparse := Parser.parse_eq_ok_of_unambiguous (lexemes text)
      ⟨[], Parser.stopOf (lexemes text)⟩ h hnesting ((tokens_lexemes text).trans htokens) hend
    rw [List.append_nil] at hparse
    exact ⟨_, hparse, rfl⟩

end TypeExpr

end TypeNotation
