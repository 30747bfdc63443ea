import TypeNotation.Proofs.Grammar.Stop
import TypeNotation.Proofs.Parser.Walk

set_option autoImplicit false

/-! # Where a walk stands

A walk over some lexemes always stands in front of the last of them, and which those are is a matter
of the tokens that are left. `Cursor.facing` is the cursor in front of some tokens, and each part of
a rule that takes single tokens does there what the readers do. -/

namespace TypeNotation

open Grammar (Stop takeLabel takeMaybe takeComma)

/-! ## Where the cursor stands -/

namespace Cursor

/-- The cursor in front of the last lexemes of `ls`, whose tokens are `ts`. -/
def facing (ls : List Lexeme) (depth : Nat) (ts : List Token) : Cursor :=
  ⟨ls, ls.length - ts.length, depth⟩

/-- The parser at the same place. It knows nothing of open shapes. -/
def parser (c : Cursor) : Parser :=
  ⟨c.rest, Parser.stopOf c.lexemes⟩

theorem parser_place (c : Cursor) : c.parser.place = c.place := by
  unfold parser Parser.place rest place
  rw [← List.head?_drop]
  cases c.lexemes.drop c.current <;> rfl

variable {ls : List Lexeme} {depth : Nat} {ts : List Token}

theorem exists_eq_append (h : ts <:+ Parser.tokensOf ls) :
    ∃ front back, ls = front ++ back ∧ Parser.tokensOf back = ts := by
  obtain ⟨before, hts⟩ := h
  obtain ⟨front, back, hls, -, hback⟩ := List.map_eq_append_iff.1 hts.symm
  exact ⟨front, back, hls, hback⟩

theorem facing_append (front back : List Lexeme) :
    facing (front ++ back) depth (Parser.tokensOf back) = ⟨front ++ back, front.length, depth⟩ := by
  simp [facing, Parser.tokensOf]

theorem rest_facing_append (front back : List Lexeme) :
    (facing (front ++ back) depth (Parser.tokensOf back)).rest = back := by
  rw [facing_append]
  exact List.drop_left

theorem length_rest_facing (h : ts <:+ Parser.tokensOf ls) :
    (facing ls depth ts).rest.length = ts.length := by
  obtain ⟨front, back, rfl, rfl⟩ := exists_eq_append h
  rw [rest_facing_append, Parser.tokensOf, List.length_map]

theorem place_facing_cons (front back : List Lexeme) (l : Lexeme) :
    (facing (front ++ l :: back) depth (Parser.tokensOf (l :: back))).place = l.span := by
  rw [← parser_place, parser, rest_facing_append]
  rfl

theorem token?_facing (h : ts <:+ Parser.tokensOf ls) (ahead : Nat) :
    (facing ls depth ts).token? ahead = ts[ahead]? := by
  obtain ⟨front, back, rfl, rfl⟩ := exists_eq_append h
  rw [facing_append, token?, Parser.tokensOf, List.getElem?_map,
    List.getElem?_append_right (Nat.le_add_right _ _), Nat.add_sub_cancel_left]

theorem advance_facing {t : Token} (h : t :: ts <:+ Parser.tokensOf ls) :
    (facing ls depth (t :: ts)).advance = facing ls depth ts := by
  have hlength : ts.length + 1 ≤ ls.length := by
    simpa [Parser.tokensOf] using h.length_le
  unfold advance facing
  rw [if_pos]
  · simp only [List.length_cons, Cursor.mk.injEq, true_and, and_true]
    omega
  · simp only [List.length_cons]
    omega

end Cursor

/-! ## How a walk ends -/

namespace Walk

variable {α β : Type} {ls : List Lexeme} {limit room depth : Nat} {ts : List Token}

/-- The fault for a stop in some lexemes. -/
def faultAt (ls : List Lexeme) (stop : Stop) : Fault :=
  let c := Cursor.facing ls 0 stop.rest
  .at (c.parser.blame (ls.take c.current) stop.cause) stop.cause

/-- A walk that ends with a fault where the grammar stops. -/
def stopped (ls : List Lexeme) (depth : Nat) (stop : Stop) : Option (Except Fault β × Cursor) :=
  some (.error (faultAt ls stop), .facing ls depth stop.rest)

theorem bind_eq (w : Walk α) (next : α → Walk β) (c : Cursor) :
    (w >>= next) c = (w c).bind fun found => ExceptT.bindCont next found.1 found.2 :=
  rfl

theorem bind_ok {w : Walk α} {c c' : Cursor} {a : α} (h : w c = some (.ok a, c'))
    (next : α → Walk β) : (w >>= next) c = next a c' := by
  rw [bind_eq, h]
  rfl

theorem bind_stopped {w : Walk α} {c : Cursor} {stop : Stop} (h : w c = stopped ls depth stop)
    (next : α → Walk β) : (w >>= next) c = stopped ls depth stop := by
  rw [bind_eq, h]
  rfl

theorem bind_get (next : Cursor → Walk β) (c : Cursor) : (get >>= next) c = next c c :=
  rfl

/-! ## Loops -/

section Loops

variable {σ : Type} {round : σ → Walk (Round σ α)} {s s' : σ} {rest : List Token}

theorem loop_again (h : ts <:+ Parser.tokensOf ls) (hrest : rest <:+ Parser.tokensOf ls)
    (hshorter : rest.length < ts.length)
    (hround : round s (.facing ls depth ts) = some (.ok (.again s'), .facing ls depth rest)) :
    loop round s (.facing ls depth ts) = loop round s' (.facing ls depth rest) := by
  rw [loop, hround]
  simp only [Cursor.length_rest_facing h, Cursor.length_rest_facing hrest, if_pos hshorter]

theorem loop_done {c c' : Cursor} {a : α} (hround : round s c = some (.ok (.done a), c')) :
    loop round s c = some (.ok a, c') := by
  rw [loop, hround]

theorem loop_stopped {c : Cursor} {stop : Stop} (hround : round s c = stopped ls depth stop) :
    loop round s c = stopped ls depth stop := by
  rw [loop, hround]
  rfl

end Loops

/-! ## Single tokens -/

/-- All but an empty array or tuple is blamed where the cursor stands. -/
theorem fail_facing {cause : Cause} (harray : cause ≠ .emptyArray) (htuple : cause ≠ .emptyTuple) :
    (fail cause : Walk β) (.facing ls depth ts) = stopped ls depth ⟨cause, ts⟩ := by
  have hblame : faultAt ls ⟨cause, ts⟩ = .at (Cursor.facing ls depth ts).place cause := by
    have hplace := (Cursor.facing ls 0 ts).parser_place
    cases cause with
    | emptyArray => exact absurd rfl harray
    | emptyTuple => exact absurd rfl htuple
    | _ => exact congrArg (Fault.at · _) hplace
  rw [stopped, hblame]
  rfl

theorem next_nil : next (.facing ls depth []) = stopped ls depth ⟨.unexpectedEnd, []⟩ := by
  unfold next
  rw [bind_get, Cursor.token?_facing List.nil_suffix]
  exact fail_facing nofun nofun

theorem next_cons {t : Token} (h : t :: ts <:+ Parser.tokensOf ls) :
    next (.facing ls depth (t :: ts)) = some (.ok t, .facing ls depth (t :: ts)) := by
  unfold next
  rw [bind_get, Cursor.token?_facing h]
  rfl

theorem exists_next {t : Token} (h : ts <:+ Parser.tokensOf ls) (hne : ts ≠ [])
    (hts : ∀ after, ts ≠ t :: after) :
    ∃ u, u ≠ t ∧ next (.facing ls depth ts) = some (.ok u, .facing ls depth ts) := by
  cases ts with
  | nil => exact absurd rfl hne
  | cons u after =>
    refine ⟨u, ?_, next_cons h⟩
    rintro rfl
    exact hts after rfl

theorem unexpected_facing (h : ts <:+ Parser.tokensOf ls) (expected : Expected) :
    (unexpected expected : Walk β) (.facing ls depth ts)
      = stopped ls depth (Grammar.unexpected expected ts) := by
  unfold unexpected
  rw [bind_get, Cursor.token?_facing h]
  cases ts with
  | nil => exact fail_facing nofun nofun
  | cons t ts => exact fail_facing nofun nofun

theorem advance_facing {t : Token} (h : t :: ts <:+ Parser.tokensOf ls) :
    advance (.facing ls depth (t :: ts)) = some (.ok (), .facing ls depth ts) := by
  rw [← Cursor.advance_facing h]
  rfl

theorem accept_cons_self {t : Token} (h : t :: ts <:+ Parser.tokensOf ls) :
    accept t (.facing ls depth (t :: ts)) = some (.ok true, .facing ls depth ts) := by
  unfold accept
  rw [bind_get, Cursor.token?_facing h, if_pos List.getElem?_cons_zero]
  exact bind_ok (advance_facing h) _

theorem accept_of_ne {t : Token} (h : ts <:+ Parser.tokensOf ls) (ht : ts.head? ≠ some t) :
    accept t (.facing ls depth ts) = some (.ok false, .facing ls depth ts) := by
  unfold accept
  rw [bind_get, Cursor.token?_facing h, ← List.head?_eq_getElem?, if_neg ht]
  rfl

theorem expect_cons_self {t : Token} (h : t :: ts <:+ Parser.tokensOf ls) :
    expect t (.facing ls depth (t :: ts)) = some (.ok (), .facing ls depth ts) := by
  unfold expect
  rw [bind_ok (next_cons h), if_pos rfl]
  exact advance_facing h

theorem expect_of_ne {t : Token} (h : ts <:+ Parser.tokensOf ls) (ht : ts.head? ≠ some t) :
    expect t (.facing ls depth ts)
      = stopped ls depth (Grammar.unexpected (.literal t) ts) := by
  unfold expect
  cases ts with
  | nil => exact bind_stopped next_nil _
  | cons u ts =>
    rw [bind_ok (next_cons h), if_neg (by simpa using ht)]
    exact unexpected_facing h _

theorem key_facing {text : String} (h : .identifier text :: ts <:+ Parser.tokensOf ls) :
    key (.facing ls depth (.identifier text :: ts)) = some (.ok text, .facing ls depth ts) := by
  unfold key
  rw [bind_ok (next_cons h)]
  exact bind_ok (advance_facing h) _

theorem key_of_ne (h : ts <:+ Parser.tokensOf ls)
    (hts : ∀ text, ts.head? ≠ some (.identifier text)) :
    key (.facing ls depth ts) = stopped ls depth (Grammar.unexpected .text ts) := by
  unfold key
  cases ts with
  | nil => exact bind_stopped next_nil _
  | cons t ts =>
    rw [bind_ok (next_cons h)]
    split
    · next text => exact absurd rfl (hts text)
    · exact unexpected_facing h _

/-! ## Parts of the rules -/

theorem label_facing {label : Option Token} {rest : List Token} (h : ts <:+ Parser.tokensOf ls)
    (hts : ts ≠ []) (hlabel : takeLabel ts = (label, rest)) :
    Walk.label (.facing ls depth ts) = some (.ok (), .facing ls depth rest) := by
  cases ts with
  | nil => exact absurd rfl hts
  | cons t ts =>
    unfold Walk.label
    rw [bind_ok (next_cons h), bind_get, Cursor.token?_facing h]
    unfold takeLabel at hlabel
    split at hlabel
    · next heq =>
      cases heq
      cases hlabel
      rw [if_pos (by simp), bind_ok (advance_facing h)]
      exact advance_facing ((List.suffix_cons _ _).trans h)
    · next hne =>
      cases hlabel
      rw [if_neg]
      · rfl
      · intro hcolon
        cases ts with
        | nil => cases hcolon
        | cons u ts =>
          obtain rfl : u = .doubleColon := Option.some.inj hcolon
          exact hne t ts rfl

theorem maybe_facing {maybe : Bool} {rest : List Token} (h : ts <:+ Parser.tokensOf ls)
    (hts : ts ≠ []) (hmaybe : takeMaybe ts = (maybe, rest)) :
    Walk.maybe (.facing ls depth ts) = some (.ok maybe, .facing ls depth rest) := by
  cases ts with
  | nil => exact absurd rfl hts
  | cons t ts =>
    unfold Walk.maybe
    rw [bind_ok (next_cons h)]
    rw [takeMaybe] at hmaybe
    by_cases ht : t = maybeToken
    · rw [if_pos ht] at hmaybe ⊢
      cases hmaybe
      exact bind_ok (advance_facing h) _
    · rw [if_neg ht] at hmaybe ⊢
      cases hmaybe
      rfl

theorem comma_facing {comma : Bool} {rest : List Token} (h : ts <:+ Parser.tokensOf ls)
    (hcomma : takeComma ts = (comma, rest)) :
    accept .comma (.facing ls depth ts) = some (.ok comma, .facing ls depth rest) := by
  unfold takeComma at hcomma
  split at hcomma
  · cases hcomma
    exact accept_cons_self h
  · next hts =>
    cases hcomma
    exact accept_of_ne h (Grammar.head?_ne_some_iff.2 hts)

/-- An empty array or tuple is blamed from its first bracket to its second. -/
theorem faultAt_cons {l : Lexeme} {front back : List Lexeme} {cause : Cause}
    (hls : ls = front ++ l :: back) (hcause : cause = .emptyArray ∨ cause = .emptyTuple) :
    faultAt ls ⟨cause, Parser.tokensOf back⟩
      = .at ⟨l.span.start, (Cursor.facing ls depth (Parser.tokensOf back)).place.stop⟩ cause := by
  have hsplit : ls = front ++ [l] ++ back := by simp [hls]
  have hlast : Parser.lastStart? (ls.take (Cursor.facing ls 0 (Parser.tokensOf back)).current)
      = some l.span.start := by
    rw [hsplit, Cursor.facing_append, List.take_left, Parser.lastStart?, List.getLast?_concat]
    rfl
  have hplace := (Cursor.facing ls 0 (Parser.tokensOf back)).parser_place
  rw [faultAt]
  rcases hcause with rfl | rfl
  · simp only [Parser.blame, hlast, hplace]
    rfl
  · simp only [Parser.blame, hlast, hplace]
    rfl

section Opening

variable {opener closer : Token} {cause : Cause}

theorem opening_nil (h : [opener] <:+ Parser.tokensOf ls) :
    opening opener closer cause (.facing ls depth [opener])
      = stopped ls depth ⟨.unexpectedEnd, []⟩ := by
  unfold opening
  rw [bind_get, bind_ok (expect_cons_self h)]
  exact bind_stopped next_nil _

theorem opening_closer (hcause : cause = .emptyArray ∨ cause = .emptyTuple)
    (h : opener :: closer :: ts <:+ Parser.tokensOf ls) :
    opening opener closer cause (.facing ls depth (opener :: closer :: ts))
      = stopped ls depth ⟨cause, closer :: ts⟩ := by
  have hrest : closer :: ts <:+ Parser.tokensOf ls := (List.suffix_cons _ _).trans h
  obtain ⟨front, both, rfl, hboth⟩ := Cursor.exists_eq_append h
  cases both with
  | nil => cases hboth
  | cons l back =>
    have hback : Parser.tokensOf back = closer :: ts := (List.cons.inj hboth).2
    have hplace : (Cursor.facing (front ++ l :: back) depth (opener :: closer :: ts)).place
        = l.span := by
      rw [← hboth]
      exact Cursor.place_facing_cons front back l
    have hfault : faultAt (front ++ l :: back) ⟨cause, closer :: ts⟩
        = .at ⟨l.span.start,
          (Cursor.facing (front ++ l :: back) depth (closer :: ts)).place.stop⟩ cause := by
      rw [← hback]
      exact faultAt_cons rfl hcause
    -- the place of the first bracket was taken before that bracket was passed
    unfold opening
    rw [bind_get, bind_ok (expect_cons_self h), bind_ok (next_cons hrest), if_pos rfl, bind_get,
      hplace, stopped, hfault]
    rfl

theorem opening_facing (h : opener :: ts <:+ Parser.tokensOf ls) (hts : ts ≠ [])
    (hcloser : ts.head? ≠ some closer) :
    opening opener closer cause (.facing ls depth (opener :: ts))
      = some (.ok (), .facing ls depth ts) := by
  cases ts with
  | nil => exact absurd rfl hts
  | cons t ts =>
    have hrest : t :: ts <:+ Parser.tokensOf ls := (List.suffix_cons _ _).trans h
    unfold opening
    rw [bind_get, bind_ok (expect_cons_self h), bind_ok (next_cons hrest),
      if_neg (by simpa using hcloser)]
    rfl

end Opening

end Walk

end TypeNotation
