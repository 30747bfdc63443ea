import TypeNotation.Proofs.Grammar.Cutoff
import TypeNotation.Proofs.Grammar.Extend
import TypeNotation.Proofs.Parser.Fault
import TypeNotation.Proofs.TypeExpr.Denote

set_option autoImplicit false

/-! # A parser beside simpler ones

Two things a parser does could have been left undone. It could read shapes however deep they are:
then it would go the same way up to the first bracket that opens one shape too many, and the limit
does no more than stop it there (`Parser.parse_eq_parseFreely_or_tooDeep`). And it could keep every
variant that is written: then it would stop where it stops now, with the same faults, and what it
gives would denote the same values, whatever the names and shapes stand for
(`Parser.union_parse_eq_union_parseAll`). -/

namespace TypeNotation.Parser

/-- Reads the next type expression as `read` reads trees and `value` understands them. -/
def parseBy (read : List Token → Except Grammar.Stop (ExprTree × List Token))
    (value : ExprTree → TypeExpr) (p : Parser) : Except Fault TypeExpr × Parser :=
  match read (tokensOf p.rest) with
  | .ok (tree, rest) => (.ok (value tree), (p.splitLast rest.length).2)
  | .error stop =>
    let (front, p') := p.splitLast stop.rest.length
    (.error (.at (p'.blame front stop.cause) stop.cause), p')

theorem parse_eq_parseBy (p : Parser) :
    p.parse = p.parseBy (Grammar.read nestingLimit) ExprTree.value :=
  rfl

/-! ## Without the limit -/

/-- Reads the next type expression with any number of shapes inside one another. -/
def parseFreely : Parser → Except Fault TypeExpr × Parser :=
  parseBy Grammar.readFreely ExprTree.value

/-- A parser that stops at a lexeme also stops there, with the same fault, when other lexemes stand
    behind it. -/
theorem parse_replace {front back back' : List Lexeme} {l : Lexeme} {stop : Nat} {fault : Fault}
    (h : (⟨front ++ l :: back, stop⟩ : Parser).parse = (.error fault, ⟨l :: back, stop⟩))
    (hback : Grammar.Replaces (tokensOf back') (tokensOf back)) (stop' : Nat) :
    (⟨front ++ l :: back', stop'⟩ : Parser).parse = (.error fault, ⟨l :: back', stop'⟩) := by
  obtain ⟨front', cause, hp, hread, rfl⟩ := parse_eq_error_iff.1 h
  obtain rfl : front = front' := List.append_cancel_right (congrArg Parser.rest hp)
  obtain ⟨before, htokens, hbefore⟩ := Grammar.read_settled nestingLimit _ _ _ _ hread
  obtain rfl : tokensOf front = before :=
    List.append_cancel_right ((tokensOf_append front (l :: back)).symm.trans htokens)
  refine parse_eq_error_iff.2 ⟨front, cause, rfl, ?_, rfl⟩
  rw [tokensOf_append]
  exact hbefore _ hback

/-- `openings` are the brackets at which the reader without a limit opens a shape, each with the
    number of shapes open behind it. If none of them exceeds `nestingLimit`, `parse` is
    `parseFreely`. Otherwise `parse` fails with `tooDeep nestingLimit` at the first that does
    (`FirstBeyond`), and still does so when what stands behind that bracket is replaced by anything
    that does not make a label of it (`Replaces`). -/
theorem parse_eq_parseFreely_or_tooDeep (p : Parser) :
    ((∀ o ∈ Grammar.openings (tokensOf p.rest), o.depth ≤ nestingLimit) →
        p.parse = p.parseFreely) ∧
      ((∃ o ∈ Grammar.openings (tokensOf p.rest), nestingLimit < o.depth) →
        ∃ (front : List Lexeme) (l : Lexeme) (back : List Lexeme),
          p.rest = front ++ l :: back ∧
            Grammar.FirstBeyond nestingLimit (Grammar.openings (tokensOf p.rest))
              ⟨nestingLimit + 1, tokensOf (l :: back)⟩ ∧
            p.parse
              = (.error (.at l.span (.tooDeep nestingLimit)), ⟨l :: back, p.stop⟩) ∧
            ∀ (back' : List Lexeme) (stop : Nat),
              Grammar.Replaces (tokensOf back') (tokensOf back) →
                (⟨front ++ l :: back', stop⟩ : Parser).parse
                  = (.error (.at l.span (.tooDeep nestingLimit)), ⟨l :: back', stop⟩)) := by
  constructor
  · intro hwithin
    rcases Grammar.read_cutsOff nestingLimit (tokensOf p.rest) with
      ⟨-, hread⟩ | ⟨o, hfirst, -⟩
    · rw [parse_eq_parseBy, parseBy, hread]
      rfl
    · have hdepth := hwithin o hfirst.mem
      rw [hfirst.depth_eq] at hdepth
      omega
  · rintro ⟨o, ho, hbeyond⟩
    rcases Grammar.read_cutsOff nestingLimit (tokensOf p.rest) with
      ⟨hwithin, -⟩ | ⟨⟨depth, rest⟩, hfirst, hread⟩
    · exact absurd (hwithin o ho) (Nat.not_le.2 hbeyond)
    · obtain rfl : depth = nestingLimit + 1 := hfirst.depth_eq
      -- reading stopped at a bracket, which is the token of some lexeme
      obtain ⟨before, htokens, t, hfirst', -⟩ := Grammar.read_within hread
      obtain ⟨after, rfl⟩ := List.head?_eq_some_iff.1 hfirst'
      obtain ⟨front, tail, hsplit, -, htail⟩ := List.map_eq_append_iff.1 htokens
      obtain ⟨l, back, rfl, rfl, rfl⟩ := List.map_eq_cons_iff.1 htail
      have hparse : p.parse
          = (.error (.at l.span (.tooDeep nestingLimit)), ⟨l :: back, p.stop⟩) :=
        parse_eq_error_iff.2 ⟨front, _, congrArg (Parser.mk · p.stop) hsplit, hread, rfl⟩
      refine ⟨front, l, back, hsplit, hfirst, hparse, fun back' stop' hback => ?_⟩
      obtain ⟨ls, stop⟩ := p
      obtain rfl : ls = front ++ l :: back := hsplit
      exact parse_replace hparse hback stop'

/-! ## With every variant -/

/-- Reads the next type expression and leaves no variant out. -/
def parseAll : Parser → Except Fault TypeExpr × Parser :=
  parseBy (Grammar.read nestingLimit) ExprTree.written

universe u

/-- `parse`, and `parseAll`, which keeps all variants, leave the same parser. Both fail with the
    same fault, or both succeed, with type expressions that have the same `union` under every
    `Interpretation`. -/
theorem union_parse_eq_union_parseAll (p : Parser) :
    p.parse.2 = p.parseAll.2 ∧
      ((∃ fault, p.parse.1 = .error fault ∧ p.parseAll.1 = .error fault) ∨
        ∃ of of', p.parse.1 = .ok of ∧ p.parseAll.1 = .ok of' ∧
          ∀ (α : Type u) (i : Interpretation α), i.union of = i.union of') := by
  rw [parse_eq_parseBy, parseAll]
  unfold parseBy
  split
  · next tree rest _ =>
    refine ⟨rfl, .inr ⟨tree.value, tree.written, rfl, rfl, fun α i => ?_⟩⟩
    rw [tree.value_eq, i.union_norm]
  · exact ⟨rfl, .inl ⟨_, rfl, rfl⟩⟩

end TypeNotation.Parser
