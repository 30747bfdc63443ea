import Mathlib.Data.Nat.Find
import TypeNotation.Proofs.Parser.Forward
import TypeNotation.Proofs.Parser.Resume

set_option autoImplicit false

/-! # A parser gets to the end

A walk over a shape is in the end given by its rule alone, in which the shapes inside it are walked
over in the same way: the levels that keep it from going on for ever are never used up. So whatever
is called in the course of a walk is called at some cursor by one of the rules, and moves that
cursor forward. Calling a parser again and again, each success takes a lexeme, and so at last there
is a fault. -/

namespace TypeNotation

/-! ## Rules that call one another -/

open Grammar (startsShape)

namespace Walk

variable {limit : Nat}

/-- What walks over the shapes inside a shape matters only where a shape may be opened. -/
theorem rules_shape?_congr {inner inner' : Walk (Option Shape)} {c : Cursor}
    (h : ∀ t, c.token? 0 = some t → t.opens = true → limit ≤ c.depth) :
    Rules.shape? inner limit c = Rules.shape? inner' limit c := by
  rw [Rules.shape?, Rules.shape?, bind_get, bind_get]
  cases ht : c.token? 0 with
  | none => rfl
  | some t =>
    cases hopens : t.opens with
    | false => simp only [hopens, Bool.false_eq_true, if_false]
    | true => simp only [hopens, if_true, if_pos (h t ht hopens)]

theorem shape?_at_opener {inner : Walk (Option Shape)} {c : Cursor} {t : Token} {room : Nat}
    (hinner : FollowsShape inner limit room (c.depth + 1)) (ht : c.token? 0 = some t)
    (hopens : t.opens = true) (hdepth : c.depth < limit) :
    Rules.shape? inner limit c
      = outcome c.lexemes c.depth (fun s : ShapeTree => some s.value)
        ((Grammar.shapeAt limit (room + 1)).read (Parser.tokensOf c.rest)) := by
  have hsuffix : Parser.tokensOf c.rest <:+ Parser.tokensOf c.lexemes :=
    (List.drop_suffix _ _).map _
  have hstarts : startsShape (Parser.tokensOf c.rest) = true := by
    have hhead : (Parser.tokensOf c.rest).head? = some t := by
      rw [Parser.tokensOf, List.head?_map, Cursor.rest, List.head?_drop]
      exact ht
    obtain ⟨after, hafter⟩ := List.head?_eq_some_iff.1 hhead
    rw [hafter]
    exact hopens
  have hc : Cursor.facing c.lexemes c.depth (Parser.tokensOf c.rest) = c := by
    have hlt := Cursor.current_lt_of_token? ht
    rw [Cursor.facing, Parser.tokensOf, List.length_map, Cursor.rest, List.length_drop,
      Nat.sub_sub_self (Nat.le_of_lt hlt)]
  have hwalk := shape?_below_limit hinner hsuffix hstarts hdepth
  rwa [hc] at hwalk

/-- The shapes inside a shape are walked over like the shape itself. -/
theorem shape?_eq (limit : Nat) : shape? limit = Rules.shape? (shape? limit) limit := by
  funext c
  by_cases h : ∀ t, c.token? 0 = some t → t.opens = true → limit ≤ c.depth
  · exact rules_shape?_congr h
  · simp only [not_forall] at h
    obtain ⟨t, ht, hopens, hlimit⟩ := h
    have hdepth : c.depth < limit := Nat.not_le.1 hlimit
    have hroom : c.depth + 1 + (limit - (c.depth + 1)) = limit := by omega
    have hlevels : FollowsShape (shapeTo limit limit) limit (limit - (c.depth + 1)) (c.depth + 1) :=
      followsShape_shapeTo hroom (by omega)
    exact (shape?_at_opener hlevels ht hopens hdepth).trans
      (shape?_at_opener (followsShape hroom) ht hopens hdepth).symm

theorem parse_passes (limit : Nat) (c : Cursor) : (parse limit).Passes c := by
  refine next_movesOn.bind ?_
  rintro t _ - ⟨rfl, -⟩
  split
  · exact fail_movesOn
  · exact union_passes (fun c _ => shape?_passes limit c) rfl

/-- What is called at a cursor, by whatever rule, moves it forward and comes to an end, and a round
    of a loop leaves fewer lexemes for the next one. -/
structure Disciplined (limit : Nat) (c : Cursor) : Prop where
  union : (union limit).Passes c
  variant : (variant limit).Passes c
  shape? : PassesIfFound (shape? limit) c
  parse : (parse limit).Passes c
  variantRound (kept : List String × TypeExpr) :
    (Rules.variantRound (Walk.shape? limit) kept).MovesOn c
      fun _ c' => c'.rest.length < c.rest.length
  slotRound (before : List TypeExpr) :
    (Rules.slotRound (Walk.shape? limit) before).MovesOn c
      fun _ c' => c'.rest.length < c.rest.length
  fieldRound (before : List Field) :
    (Rules.fieldRound (Walk.shape? limit) before).MovesOn c
      fun _ c' => c'.rest.length < c.rest.length

theorem Passes.shrinks {α : Type} {w : Walk α} {c : Cursor} (hw : w.Passes c) :
    w.MovesOn c fun _ c' => c'.rest.length < c.rest.length :=
  hw.imp fun _ _ hforward hpassed => hpassed.length_rest_lt hforward

theorem disciplined (limit : Nat) (c : Cursor) : Disciplined limit c :=
  have hinner : ∀ c' : Cursor, c'.depth = c.depth → PassesIfFound (shape? limit) c' :=
    fun c' _ => shape?_passes limit c'
  { union := union_passes hinner rfl
    variant := variant_passes hinner rfl
    shape? := shape?_passes limit c
    parse := parse_passes limit c
    variantRound := fun kept => (variantRound_passes hinner rfl kept).shrinks
    slotRound := fun before => (slotRound_passes hinner rfl before).shrinks
    fieldRound := fun before => (fieldRound_passes hinner rfl before).shrinks }

end Walk

/-! ## Calling a parser again and again -/

namespace Parser

theorem length_rest_lt_of_parse {p p' : Parser} {of : TypeExpr} (h : p.parse = (.ok of, p')) :
    p'.rest.length < p.rest.length := by
  obtain ⟨tree, front, rfl, hfront, -⟩ := parse_eq_ok_iff.1 h
  have hne : front ≠ [] := by
    rintro rfl
    exact tree.tokens_ne_nil hfront.symm
  have hpos := List.length_pos_iff.2 hne
  simp only [List.length_append]
  omega

/-- Each of the first `n` successes has taken a lexeme. -/
theorem length_rest_after_le {p : Parser} {n : Nat}
    (h : ∀ i < n, ∃ of, (p.after i).parse.1 = .ok of) :
    (p.after n).rest.length + n ≤ p.rest.length := by
  induction n with
  | zero => exact Nat.le_refl _
  | succ n ih =>
    have hbefore := ih fun i hi => h i (Nat.lt_succ_of_lt hi)
    obtain ⟨of, hof⟩ := h n (Nat.lt_succ_self n)
    have hfewer : (p.after n).parse.2.rest.length < (p.after n).rest.length :=
      length_rest_lt_of_parse (Prod.ext hof rfl)
    rw [after]
    omega

theorem exists_ok_of_ne_error {p : Parser} (h : ∀ fault, p.parse.1 ≠ .error fault) :
    ∃ of, p.parse.1 = .ok of := by
  cases hparse : p.parse.1 with
  | ok of => exact ⟨of, rfl⟩
  | error fault => exact absurd hparse (h fault)

theorem exists_fault (p : Parser) : ∃ n fault, (p.after n).parse.1 = .error fault := by
  by_contra hnone
  simp only [not_exists] at hnone
  have hok : ∀ i < p.rest.length + 1, ∃ of, (p.after i).parse.1 = .ok of :=
    fun i _ => exists_ok_of_ne_error (hnone i)
  have hlength := length_rest_after_le hok
  omega

/-- The first call with a fault comes after no more successes than there are lexemes. -/
theorem exists_first_fault (p : Parser) :
    ∃ n ≤ p.rest.length, (∀ i < n, ∃ of, (p.after i).parse.1 = .ok of) ∧
      ∃ fault, (p.after n).parse.1 = .error fault := by
  classical
  have hok : ∀ i < Nat.find p.exists_fault, ∃ of, (p.after i).parse.1 = .ok of := by
    intro i hi
    exact exists_ok_of_ne_error fun fault hfault => Nat.find_min p.exists_fault hi ⟨fault, hfault⟩
  have hlength := length_rest_after_le hok
  exact ⟨Nat.find p.exists_fault, by omega, hok, Nat.find_spec p.exists_fault⟩

end Parser

namespace Cursor

theorem parser_append (front rest : List Lexeme) (depth : Nat) :
    (⟨front ++ rest, front.length, depth⟩ : Cursor).parser
      = ⟨rest, Parser.stopOf (front ++ rest)⟩ := by
  rw [parser, Cursor.rest, List.drop_left]

theorem forward_append (front read rest : List Lexeme) (depth : Nat) :
    Forward ⟨front ++ (read ++ rest), front.length, depth⟩
      ⟨front ++ (read ++ rest), (front ++ read).length, depth⟩ where
  lexemes_eq := rfl
  depth_eq := rfl
  current_le := by simp
  current_le_length _ := by simp

/-- However often they have been called, a parser and its walk stand at the same place, no further
    back than where they began, and move on together. -/
theorem exists_forward_after (ls : List Lexeme) (n : Nat) :
    ∃ c c', (ofLexemes ls).after n = some c ∧ (Parser.ofLexemes ls).after n = c.parser ∧
      (ofLexemes ls).Forward c ∧ c.parse = some (c.parser.parse.1, c') ∧
      c.parser.parse.2 = c'.parser ∧ c.Forward c' := by
  obtain ⟨front, rest, rfl, hparser, hcursor⟩ := exists_after ls n
  obtain ⟨result, read, rest', rfl, hparse, hwalk⟩ := exists_parse front rest
  refine ⟨_, ⟨front ++ (read ++ rest'), (front ++ read).length, 0⟩, hcursor, ?_,
    forward_append [] front (read ++ rest') 0, ?_, ?_, forward_append front read rest' 0⟩
  · rw [hparser, parser_append]
  · rw [parser_append, hparse, hwalk]
  · rw [parser_append, hparse, ← List.append_assoc, parser_append]

end Cursor

/-- The walk `shape? nestingLimit` satisfies the equation that its rule gives for it, so that the
    rules call nothing but one another, and at every cursor they are `Disciplined`: each comes to an
    end, leaves the lexemes and the depth as they are, does not move back, and passes a lexeme if it
    gives a result; each round of a loop leaves fewer lexemes. After any number of calls of `parse`,
    parser and cursor stand at one place, which is `Forward` of the first one, and the next call
    moves it `Forward`. The first call that fails comes after at most `ls.length` that succeed. -/
theorem Walk.disciplined_and_exists_first_fault (ls : List Lexeme) :
    shape? nestingLimit = Rules.shape? (shape? nestingLimit) nestingLimit ∧
      (∀ c, Disciplined nestingLimit c) ∧
      (∀ n, ∃ c c', (Cursor.ofLexemes ls).after n = some c ∧
        (Parser.ofLexemes ls).after n = c.parser ∧ (Cursor.ofLexemes ls).Forward c ∧
        c.parse = some (c.parser.parse.1, c') ∧ c.parser.parse.2 = c'.parser ∧ c.Forward c') ∧
      ∃ n ≤ ls.length, (∀ i < n, ∃ of, ((Parser.ofLexemes ls).after i).parse.1 = .ok of) ∧
        ∃ fault, ((Parser.ofLexemes ls).after n).parse.1 = .error fault :=
  ⟨shape?_eq _, disciplined _, Cursor.exists_forward_after ls,
    Parser.exists_first_fault (Parser.ofLexemes ls)⟩

end TypeNotation
