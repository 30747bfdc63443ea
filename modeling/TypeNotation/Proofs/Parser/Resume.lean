import TypeNotation.Proofs.Parser.Fault
import TypeNotation.Proofs.Parser.Follow

set_option autoImplicit false

/-! # Going on after a fault

A parser goes on where it stopped, after a success as after a fault, and nothing but the lexemes in
front of it decides what it does. A walk does the same, though it counts open shapes: between two
type expressions none is open. -/

namespace TypeNotation

namespace Parser

/-- The parser after a number of type expressions or faults. -/
def after (p : Parser) : Nat → Parser
  | 0 => p
  | n + 1 => (p.after n).parse.2

/-- At the end of the lexemes every type expression is missing. -/
theorem parse_nil (stop : Nat) :
    (⟨[], stop⟩ : Parser).parse = (.error (.at (.point stop) .unexpectedEnd), ⟨[], stop⟩) :=
  parse_eq_error_iff.2 ⟨[], .unexpectedEnd, rfl, Grammar.read_union_nil _, rfl⟩

theorem stopOf_append {front back : List Lexeme} (h : back ≠ []) :
    stopOf (front ++ back) = stopOf back := by
  rw [stopOf, stopOf, List.getLast?_append_of_ne_nil _ h]

theorem lastStart?_append {init front : List Lexeme} {t : Token}
    (h : (tokensOf front).getLast? = some t) :
    lastStart? (init ++ front) = lastStart? front := by
  have hne : front ≠ [] := by
    rintro rfl
    cases h
  rw [lastStart?, lastStart?, List.getLast?_append_of_ne_nil _ hne]

/-- What was read before a type expression does not change the place that is blamed in it. -/
theorem blame_append_front {p : Parser} {cause : Cause} {init front : List Lexeme} {ts : List Token}
    (h : Grammar.Stop.BorneOut (tokensOf front) ⟨cause, ts⟩) :
    p.blame (init ++ front) cause = p.blame front cause := by
  cases cause with
  | emptyArray => simp only [blame, lastStart?_append h.1]
  | emptyTuple => simp only [blame, lastStart?_append h.1]
  | _ => rfl

end Parser

/-- The place of a fault is found among the lexemes of the type expression that has it. -/
theorem Walk.faultAt_append {read rest : List Lexeme} {cause : Cause} (front : List Lexeme)
    (h : Grammar.Stop.BorneOut (Parser.tokensOf read) ⟨cause, Parser.tokensOf rest⟩) :
    faultAt (front ++ (read ++ rest)) ⟨cause, Parser.tokensOf rest⟩
      = .at ((⟨rest, Parser.stopOf (front ++ (read ++ rest))⟩ : Parser).blame read cause)
        cause := by
  rw [← List.append_assoc, faultAt, Cursor.facing_append]
  simp only [Cursor.parser, Cursor.rest, List.drop_left, List.take_left]
  rw [Parser.blame_append_front h]

namespace Cursor

/-- Reads the next type expression. -/
def parse (c : Cursor) : Option (Except Fault TypeExpr × Cursor) :=
  Walk.parse nestingLimit c

/-- The cursor after a number of type expressions or faults, if no walk goes on for ever. -/
def after (c : Cursor) : Nat → Option Cursor
  | 0 => some c
  | n + 1 => (c.after n).bind fun c => c.parse.map (·.2)

theorem parse_append (front rest : List Lexeme) :
    (⟨front ++ rest, front.length, 0⟩ : Cursor).parse
      = Walk.outcome (front ++ rest) 0 ExprTree.value
        (Grammar.read nestingLimit (Parser.tokensOf rest)) := by
  have hsuffix : Parser.tokensOf rest <:+ Parser.tokensOf (front ++ rest) := by
    rw [Parser.tokensOf_append]
    exact List.suffix_append _ _
  rw [← facing_append]
  exact Walk.parse_facing hsuffix

/-- A walk that begins with no open shape gives what a parser gives there, and leaves no shape
    open behind the lexemes that were read. -/
theorem exists_parse (front rest : List Lexeme) :
    ∃ result read rest', rest = read ++ rest' ∧
      (⟨rest, Parser.stopOf (front ++ rest)⟩ : Parser).parse
        = (result, ⟨rest', Parser.stopOf (front ++ rest)⟩) ∧
      (⟨front ++ rest, front.length, 0⟩ : Cursor).parse
        = some (result, ⟨front ++ rest, (front ++ read).length, 0⟩) := by
  rw [parse_append]
  cases hread : Grammar.read nestingLimit (Parser.tokensOf rest) with
  | ok first =>
    obtain ⟨tree, ts⟩ := first
    obtain ⟨htokens, hclear, hnesting, hhead⟩ := Grammar.read_eq_ok_iff.1 hread
    obtain ⟨read, rest', rfl, hfront, rfl⟩ := List.map_eq_append_iff.1 htokens
    refine ⟨.ok tree.value, read, rest', rfl, ?_, ?_⟩
    · exact Parser.parse_eq_ok_iff.2 ⟨tree, read, rfl, hfront, hclear, hnesting, hhead, rfl⟩
    · rw [Walk.outcome, ← List.append_assoc, ← Parser.tokensOf, facing_append]
  | error stop =>
    obtain ⟨cause, ts⟩ := stop
    obtain ⟨before, htokens, hborne⟩ := Grammar.read_within hread
    obtain ⟨read, rest', rfl, rfl, rfl⟩ := List.map_eq_append_iff.1 htokens
    refine ⟨_, read, rest', rfl, Parser.parse_eq_error_iff.2 ⟨read, cause, rfl, hread, rfl⟩, ?_⟩
    rw [Walk.outcome, Walk.stopped, ← Parser.tokensOf, Walk.faultAt_append front hborne,
      ← List.append_assoc, facing_append]

/-- However often they are called, a walk and a parser stand at the same place, and no shape is
    open. -/
theorem exists_after (ls : List Lexeme) (n : Nat) :
    ∃ front rest, ls = front ++ rest ∧
      (Parser.ofLexemes ls).after n = ⟨rest, Parser.stopOf ls⟩ ∧
      (ofLexemes ls).after n = some ⟨ls, front.length, 0⟩ := by
  -- every call begins between two parts of `ls`, with no shape open, and ends so
  induction n with
  | zero => exact ⟨[], ls, rfl, rfl, rfl⟩
  | succ n ih =>
    obtain ⟨front, rest, rfl, hparser, hcursor⟩ := ih
    obtain ⟨result, read, rest', rfl, hparse, hwalk⟩ := exists_parse front rest
    refine ⟨front ++ read, rest', (List.append_assoc ..).symm, ?_, ?_⟩
    · rw [Parser.after, hparser, hparse]
    · rw [after, hcursor, Option.bind_some, hwalk]
      rfl

end Cursor

/-- After `n` calls, whatever they gave, a parser is left with a suffix `rest` of its lexemes. If
    `rest` is not empty, the next `parse` is that of `ofLexemes rest`; if it is empty, both fail
    with `unexpectedEnd` and leave nothing. The `Cursor` after `n` calls stands in front of `rest`
    with depth `0`, and its next `parse` gives the same result, leaves the same lexemes and has
    depth `0` again. -/
theorem Parser.parse_after (ls : List Lexeme) (n : Nat) :
    ∃ front rest, ls = front ++ rest ∧ (ofLexemes ls).after n = ⟨rest, stopOf ls⟩ ∧
      (rest ≠ [] → ((ofLexemes ls).after n).parse = (ofLexemes rest).parse) ∧
      (rest = [] →
        ((ofLexemes ls).after n).parse
            = (.error (.at (.point (stopOf ls)) .unexpectedEnd), ⟨[], stopOf ls⟩) ∧
          (ofLexemes rest).parse = (.error (.at (.point 0) .unexpectedEnd), ⟨[], 0⟩)) ∧
      (Cursor.ofLexemes ls).after n = some ⟨ls, front.length, 0⟩ ∧
      ∃ read rest', rest = read ++ rest' ∧
        ((ofLexemes ls).after n).parse.2 = ⟨rest', stopOf ls⟩ ∧
        (⟨ls, front.length, 0⟩ : Cursor).parse
          = some (((ofLexemes ls).after n).parse.1, ⟨ls, (front ++ read).length, 0⟩) := by
  obtain ⟨front, rest, rfl, hparser, hcursor⟩ := Cursor.exists_after ls n
  obtain ⟨result, read, rest', hrest, hparse, hwalk⟩ := Cursor.exists_parse front rest
  refine ⟨front, rest, rfl, hparser, ?_, ?_, hcursor, read, rest', hrest, ?_, ?_⟩
  · intro hne
    rw [hparser, stopOf_append hne, ofLexemes]
  · rintro rfl
    rw [hparser]
    exact ⟨parse_nil _, parse_nil 0⟩
  · rw [hparser, hparse]
  · rw [hparser, hparse, hwalk]

end TypeNotation
