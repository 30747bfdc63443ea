import TypeNotation.Proofs.Parser.Facing

set_option autoImplicit false

/-! # A walk moves forward

From wherever it begins, a walk comes to an end. It has then moved its cursor forward or not at all,
never past the end of the lexemes, and leaves as many shapes open as it has found, after a fault as
after a success. What it takes for a type or a shape is at least one lexeme, so every round of a
loop leaves fewer of them. The rules are gone through one by one, each from what is known of those
that it calls, and a shape by induction on the levels at which one may begin. -/

namespace TypeNotation

/-! ## Places in the same lexemes -/

namespace Cursor

/-- `c'` stands where `c` stands or further on, over the same lexemes and with as many shapes
    open, and not behind the end if `c` does not. -/
structure Forward (c c' : Cursor) : Prop where
  lexemes_eq : c'.lexemes = c.lexemes
  depth_eq : c'.depth = c.depth
  current_le : c.current ≤ c'.current
  current_le_length : c.current ≤ c.lexemes.length → c'.current ≤ c.lexemes.length

/-- At least one lexeme stands between `c` and `c'`. -/
def Passed (c c' : Cursor) : Prop :=
  c.current < c'.current ∧ c'.current ≤ c.lexemes.length

variable {c c₁ c₂ : Cursor} {t : Token}

theorem Forward.refl (c : Cursor) : c.Forward c :=
  ⟨rfl, rfl, Nat.le_refl _, id⟩

theorem Forward.trans (h₁ : c.Forward c₁) (h₂ : c₁.Forward c₂) : c.Forward c₂ where
  lexemes_eq := h₂.lexemes_eq.trans h₁.lexemes_eq
  depth_eq := h₂.depth_eq.trans h₁.depth_eq
  current_le := Nat.le_trans h₁.current_le h₂.current_le
  current_le_length h := by
    rw [← h₁.lexemes_eq]
    refine h₂.current_le_length ?_
    rw [h₁.lexemes_eq]
    exact h₁.current_le_length h

theorem Passed.trans_forward (hpassed : c.Passed c₁) (h₁ : c.Forward c₁) (h₂ : c₁.Forward c₂) :
    c.Passed c₂ := by
  refine ⟨Nat.lt_of_lt_of_le hpassed.1 h₂.current_le, ?_⟩
  rw [← h₁.lexemes_eq]
  refine h₂.current_le_length ?_
  rw [h₁.lexemes_eq]
  exact hpassed.2

theorem Forward.trans_passed (h₁ : c.Forward c₁) (hpassed : c₁.Passed c₂) : c.Passed c₂ :=
  ⟨Nat.lt_of_le_of_lt h₁.current_le hpassed.1, h₁.lexemes_eq ▸ hpassed.2⟩

theorem Passed.length_rest_lt (hpassed : c.Passed c₁) (h₁ : c.Forward c₁) :
    c₁.rest.length < c.rest.length := by
  obtain ⟨hlt, hle⟩ := hpassed
  rw [rest, rest, List.length_drop, List.length_drop, h₁.lexemes_eq]
  omega

theorem current_lt_of_token? (h : c.token? 0 = some t) : c.current < c.lexemes.length := by
  obtain ⟨l, hl, -⟩ := Option.map_eq_some_iff.1 h
  exact (List.getElem?_eq_some_iff.1 hl).1

theorem forward_advance (c : Cursor) : c.Forward c.advance := by
  unfold advance
  split
  · next h => exact ⟨rfl, rfl, Nat.le_succ _, fun _ => h⟩
  · exact .refl c

theorem passed_advance (h : c.token? 0 = some t) : c.Passed c.advance := by
  have hlt := current_lt_of_token? h
  rw [advance, if_pos hlt]
  exact ⟨Nat.lt_succ_self _, hlt⟩

end Cursor

namespace Walk

variable {α β σ : Type} {c : Cursor} {cause : Cause} {t : Token}

/-! ## How a walk may end -/

/-- From `c` the walk comes to an end without moving back or past the end and without a change in
    the number of open shapes. If it gives a result, `post` holds of it and of the place behind
    it. -/
def MovesOn (w : Walk α) (c : Cursor) (post : α → Cursor → Prop) : Prop :=
  ∃ found c', w c = some (found, c') ∧ c.Forward c' ∧ ∀ a, found = .ok a → post a c'

/-- From `c` the walk comes to an end as `MovesOn` says, whatever its result. -/
def Ends (w : Walk α) (c : Cursor) : Prop :=
  w.MovesOn c fun _ _ => True

/-- If the walk gives a result, it has taken at least one lexeme for it. -/
def Passes (w : Walk α) (c : Cursor) : Prop :=
  w.MovesOn c fun _ c' => c.Passed c'

/-- If the walk finds something, it has taken at least one lexeme for it, and else none. -/
def PassesIfFound (w : Walk (Option α)) (c : Cursor) : Prop :=
  w.MovesOn c fun found c' => if found.isSome then c.Passed c' else c' = c

section Ending

variable {w : Walk α} {next : α → Walk β} {post post' : α → Cursor → Prop}
  {last : β → Cursor → Prop}

theorem MovesOn.of_pure {a : α} (h : post a c) : (pure a : Walk α).MovesOn c post :=
  ⟨.ok a, c, rfl, .refl c, fun _ ha => by cases ha; exact h⟩

theorem MovesOn.of_throw (fault : Fault) : (throw fault : Walk α).MovesOn c post :=
  ⟨.error fault, c, rfl, .refl c, nofun⟩

theorem MovesOn.of_get {next : Cursor → Walk β} (h : (next c).MovesOn c last) :
    (get >>= next).MovesOn c last :=
  h

theorem MovesOn.bind (hw : w.MovesOn c post)
    (hnext : ∀ a c', c.Forward c' → post a c' → (next a).MovesOn c' last) :
    (w >>= next).MovesOn c last := by
  obtain ⟨found, c₁, hfound, hforward, hpost⟩ := hw
  cases found with
  | error fault =>
    refine ⟨.error fault, c₁, ?_, hforward, nofun⟩
    rw [bind_eq, hfound]
    rfl
  | ok a =>
    obtain ⟨result, c₂, hresult, hforward₂, hlast⟩ := hnext a c₁ hforward (hpost a rfl)
    exact ⟨result, c₂, (bind_ok hfound next).trans hresult, hforward.trans hforward₂, hlast⟩

theorem MovesOn.imp (hw : w.MovesOn c post)
    (h : ∀ a c', c.Forward c' → post a c' → post' a c') : w.MovesOn c post' := by
  obtain ⟨found, c', hfound, hforward, hpost⟩ := hw
  exact ⟨found, c', hfound, hforward, fun a ha => h a c' hforward (hpost a ha)⟩

theorem MovesOn.ends (hw : w.MovesOn c post) : w.Ends c :=
  hw.imp fun _ _ _ _ => trivial

theorem ends_pure (a : α) : (pure a : Walk α).Ends c :=
  .of_pure trivial

theorem Ends.bind (hw : w.Ends c) (hnext : ∀ a c', c.Forward c' → (next a).Ends c') :
    (w >>= next).Ends c :=
  MovesOn.bind hw fun a c' hforward _ => hnext a c' hforward

/-- What follows a walk that passes a lexeme has only to come to an end. -/
theorem Passes.bind (hw : w.Passes c) (hnext : ∀ a c', c.Forward c' → (next a).Ends c') :
    (w >>= next).Passes c :=
  MovesOn.bind hw fun a c' hforward hpassed =>
    (hnext a c' hforward).imp fun _ _ hforward' _ => hpassed.trans_forward hforward hforward'

theorem Passes.of_forward {c' : Cursor} (hw : w.Passes c') (hforward : c.Forward c') :
    w.MovesOn c' fun _ c'' => c.Passed c'' :=
  hw.imp fun _ _ _ hpassed => hforward.trans_passed hpassed

/-- What stands before a walk that passes a lexeme has only to come to an end. -/
theorem Ends.bind_passes (hw : w.Ends c) (hnext : ∀ a c', c.Forward c' → (next a).Passes c') :
    (w >>= next).Passes c :=
  MovesOn.bind hw fun a c' hforward _ => (hnext a c' hforward).of_forward hforward

end Ending

/-! ## Single tokens -/

section Tokens

variable {post : α → Cursor → Prop}

theorem fail_movesOn : (fail cause : Walk α).MovesOn c post :=
  .of_get (.of_throw _)

theorem next_movesOn : next.MovesOn c fun t c' => c' = c ∧ c.token? 0 = some t := by
  refine .of_get ?_
  split
  · next h => exact .of_pure ⟨rfl, h⟩
  · exact fail_movesOn

theorem unexpected_movesOn (expected : Expected) :
    (unexpected expected : Walk α).MovesOn c post := by
  refine .of_get ?_
  split <;> exact fail_movesOn

theorem advance_movesOn : advance.MovesOn c fun _ c' => c' = c.advance :=
  ⟨.ok (), c.advance, rfl, c.forward_advance, fun _ _ => rfl⟩

theorem advance_passes (h : c.token? 0 = some t) : advance.Passes c :=
  advance_movesOn.imp fun _ _ _ hc' => hc' ▸ Cursor.passed_advance h

theorem accept_movesOn (t : Token) :
    (accept t).MovesOn c fun found c' => found = true → c.Passed c' := by
  refine .of_get ?_
  split
  · next h => exact MovesOn.bind (advance_passes h) fun _ _ _ hpassed => .of_pure fun _ => hpassed
  · exact .of_pure nofun

theorem expect_passes (t : Token) : (expect t).Passes c := by
  refine next_movesOn.bind ?_
  rintro u _ - ⟨rfl, hu⟩
  split
  · exact advance_passes hu
  · exact unexpected_movesOn _

theorem key_passes : key.Passes c := by
  refine next_movesOn.bind ?_
  rintro u _ - ⟨rfl, hu⟩
  split
  · exact (advance_passes hu).bind fun _ _ _ => ends_pure _
  · exact unexpected_movesOn _

theorem label_ends : label.Ends c := by
  refine next_movesOn.ends.bind fun _ c₁ _ => .of_get ?_
  split
  · exact advance_movesOn.ends.bind fun _ _ _ => advance_movesOn.ends
  · exact ends_pure _

theorem maybe_ends : maybe.Ends c := by
  refine next_movesOn.ends.bind fun _ c₁ _ => ?_
  split
  · exact advance_movesOn.ends.bind fun _ _ _ => ends_pure _
  · exact ends_pure _

theorem opening_passes (opener closer : Token) : (opening opener closer cause).Passes c := by
  refine .of_get ((expect_passes opener).bind fun _ c₁ _ => ?_)
  refine next_movesOn.ends.bind fun _ c₂ _ => ?_
  split
  · exact .of_get (.of_throw _)
  · exact ends_pure _

end Tokens

/-! ## Loops -/

/-- If every round passes a lexeme, wherever it begins with as many shapes open, then the rounds
    come to an end. -/
theorem loop_passes {round : σ → Walk (Round σ α)} {depth : Nat}
    (hround : ∀ s c, c.depth = depth → (round s).Passes c) (s : σ) (hc : c.depth = depth) :
    (loop round s).Passes c := by
  -- the lexemes that are left become fewer with each round
  induction hn : c.rest.length using Nat.strongRecOn generalizing c s with
  | ind n ih =>
    obtain ⟨found, c₁, hfound, hforward, hpassed⟩ := hround s c hc
    cases found with
    | error fault =>
      refine ⟨.error fault, c₁, ?_, hforward, nofun⟩
      rw [loop, hfound]
    | ok result =>
      have hpassed := hpassed result rfl
      cases result with
      | done a => exact ⟨.ok a, c₁, loop_done hfound, hforward, fun _ _ => hpassed⟩
      | again s' =>
        have hfewer := hpassed.length_rest_lt hforward
        obtain ⟨final, c₂, hfinal, hforward₂, -⟩ :=
          ih _ (hn ▸ hfewer) s' (hforward.depth_eq.trans hc) rfl
        refine ⟨final, c₂, ?_, hforward.trans hforward₂, fun _ _ => ?_⟩
        · rw [loop, hfound]
          simp only [if_pos hfewer, hfinal]
        · exact hpassed.trans_forward hforward hforward₂

/-! ## The rules -/

section Rules

variable {inner : Walk (Option Shape)} {depth : Nat}
  (hinner : ∀ c : Cursor, c.depth = depth → PassesIfFound inner c) (hc : c.depth = depth)

include hinner hc

theorem variant_passes : (Rules.variant inner).Passes c := by
  refine next_movesOn.bind ?_
  rintro t _ - ⟨rfl, ht⟩
  split
  · refine (advance_passes ht).bind fun _ c₁ hforward => ?_
    refine (hinner c₁ (hforward.depth_eq.trans hc)).ends.bind fun found c₂ _ => ?_
    cases found <;> exact ends_pure _
  · -- without a name a shape has to be found, and so a lexeme is passed
    refine MovesOn.bind (hinner _ hc) fun found c₁ _ hfound => ?_
    cases found with
    | some shape => exact .of_pure hfound
    | none => exact unexpected_movesOn _

theorem variantRound_passes (kept : List String × TypeExpr) :
    (Rules.variantRound inner kept).Passes c := by
  refine (variant_passes hinner hc).bind fun v c₁ _ => ?_
  refine (accept_movesOn .pipe).ends.bind fun found c₂ _ => ?_
  cases found <;> exact ends_pure _

theorem union_passes : (Rules.union inner).Passes c := by
  refine label_ends.bind_passes fun _ c₁ hforward₁ => ?_
  refine maybe_ends.bind_passes fun maybe c₂ hforward₂ => ?_
  have hdepth := (hforward₁.trans hforward₂).depth_eq.trans hc
  exact loop_passes (fun kept _ hc => variantRound_passes hinner hc kept) _ hdepth

theorem array_passes : (Rules.array inner).Passes c := by
  refine (opening_passes _ _).bind fun _ c₁ hforward => ?_
  refine (union_passes hinner (hforward.depth_eq.trans hc)).ends.bind fun of c₂ _ => ?_
  exact (expect_passes _).ends.bind fun _ _ _ => ends_pure _

theorem slotRound_passes (before : List TypeExpr) :
    (Rules.slotRound inner before).Passes c := by
  refine (union_passes hinner hc).bind fun of c₁ _ => ?_
  refine (accept_movesOn .comma).ends.bind fun _ c₂ _ => ?_
  refine next_movesOn.ends.bind fun t c₃ _ => ?_
  split <;> exact ends_pure _

theorem slots_passes (before : List TypeExpr) : (Rules.slots inner before).Passes c := by
  refine (loop_passes (fun before _ hc => slotRound_passes hinner hc before) before hc).bind
    fun of c₁ _ => ?_
  exact (expect_passes _).ends.bind fun _ _ _ => ends_pure _

theorem tuple_passes : (Rules.tuple inner).Passes c := by
  refine (opening_passes _ _).bind fun _ c₁ hforward => ?_
  refine (slots_passes hinner (hforward.depth_eq.trans hc) _).ends.bind fun of c₂ _ => ?_
  exact ends_pure _

theorem fieldRound_passes (before : List Field) : (Rules.fieldRound inner before).Passes c := by
  refine (accept_movesOn .ellipsis).bind fun found c₁ hforward₁ hfound => ?_
  cases found with
  | true => exact .of_pure (hfound rfl)
  | false =>
    refine Passes.of_forward (key_passes.bind fun key c₂ hforward₂ => ?_) hforward₁
    refine (expect_passes _).ends.bind fun _ c₃ hforward₃ => ?_
    have hdepth := ((hforward₁.trans hforward₂).trans hforward₃).depth_eq.trans hc
    refine (union_passes hinner hdepth).ends.bind fun of c₄ _ => ?_
    refine (accept_movesOn .comma).ends.bind fun _ c₅ _ => ?_
    refine next_movesOn.ends.bind fun t c₆ _ => ?_
    split <;> exact ends_pure _

theorem someFields_passes (before : List Field) : (Rules.someFields inner before).Passes c := by
  refine (loop_passes (fun before _ hc => fieldRound_passes hinner hc before) before hc).bind
    fun found c₁ _ => ?_
  exact (expect_passes _).ends.bind fun _ _ _ => ends_pure _

theorem fields_passes : (Rules.fields inner).Passes c := by
  refine (expect_passes _).bind fun _ c₁ hforward => ?_
  refine (someFields_passes hinner (hforward.depth_eq.trans hc) _).ends.bind fun found c₂ _ => ?_
  exact ends_pure _

theorem shape_passes (opener : Token) : (Rules.shape inner opener).Passes c := by
  unfold Rules.shape
  split
  · exact array_passes hinner hc
  · exact tuple_passes hinner hc
  · exact fields_passes hinner hc

end Rules

/-! ## Shapes inside one another -/

/-- A walk that is one shape deeper comes back up, and hands out a fault only then. -/
theorem nested_movesOn {w : Walk α} (hw : w.Passes { c with depth := c.depth + 1 }) :
    (show Walk (Except Fault α) from fun c => do
        let (found, c) ← w { c with depth := c.depth + 1 }
        return (.ok found, { c with depth := c.depth - 1 })).MovesOn c
      fun found c' => ∀ a, found = .ok a → c.Passed c' := by
  obtain ⟨found, c', hfound, hforward, hpassed⟩ := hw
  refine ⟨.ok found, { c' with depth := c'.depth - 1 }, ?_, ?_, ?_⟩
  · change (w _).bind _ = _
    rw [hfound]
    rfl
  · exact ⟨hforward.lexemes_eq, by simp [hforward.depth_eq], hforward.current_le,
      hforward.current_le_length⟩
  · intro result hresult a ha
    cases hresult
    exact hpassed a ha

theorem rules_shape?_passes {inner : Walk (Option Shape)} {limit : Nat}
    (hinner : c.depth < limit → ∀ c' : Cursor, c'.depth = c.depth + 1 → PassesIfFound inner c') :
    PassesIfFound (Rules.shape? inner limit) c := by
  refine .of_get ?_
  split
  · exact .of_pure rfl
  · next t _ =>
    split
    · split
      · exact fail_movesOn
      · next hlimit =>
        refine (nested_movesOn (shape_passes (hinner (Nat.not_le.1 hlimit)) rfl t)).bind
          fun found c₁ _ hpassed => ?_
        cases found with
        | ok shape => exact .of_pure (hpassed shape rfl)
        | error fault => exact .of_throw _
    · exact .of_pure rfl

theorem shapeTo_passes {limit levels : Nat} (h : limit - c.depth < levels) :
    PassesIfFound (shapeTo limit levels) c := by
  -- a shape inside a shape has one level less and stands one deeper
  induction levels generalizing c with
  | zero => exact absurd h (Nat.not_lt_zero _)
  | succ levels ih => exact rules_shape?_passes fun hlimit c' hc' => ih (by omega)

theorem shape?_passes (limit : Nat) (c : Cursor) : PassesIfFound (shape? limit) c :=
  shapeTo_passes (Nat.lt_succ_of_le (Nat.sub_le _ _))

end Walk

end TypeNotation
