import TypeNotation.Proofs.Json.Exact

set_option autoImplicit false

/-! # Reading and decoding at once

A document of known form can be read without making a value of it first. A reader that does so
agrees with a reader of values if it gives what is decoded from the value, and finds the document
mistyped where nothing is. Items are decoded one by one, so arrays are read in agreement if their
items are. -/

namespace TypeNotation.Json

variable {α β γ : Type} {f : α → Option β} {cs rest : List Char}

/-- What is decoded as soon as it is read is either given or found mistyped. -/
def decoded (b? : Option β) (rest : List Char) : Except Flaw (β × List Char) :=
  match b? with
  | some b => .ok (b, rest)
  | none => .error .mistyped

/-- What comes of reading and decoding at once, given what comes of reading alone. -/
def Agrees (f : α → Option β) (plain : Except Flaw (α × List Char))
    (strict : Except Flaw (β × List Char)) : Prop :=
  match plain with
  | .ok (a, rest) => strict = decoded (f a) rest
  | .error _ => ∃ flaw, strict = .error flaw

/-- A reader that decodes at once what another reader reads. -/
def Decodes (strict : CharReader β) (plain : CharReader α) (f : α → Option β) : Prop :=
  ∀ cs, Agrees f (plain.read cs) (strict.read cs)

section

variable {strict : CharReader β} {plain : CharReader α} (h : Decodes strict plain f)

include h

theorem Decodes.of_ok {a : α} (hplain : plain.read cs = .ok (a, rest)) :
    strict.read cs = decoded (f a) rest := by
  simpa only [Agrees, hplain] using h cs

theorem Decodes.of_error {flaw : Flaw} (hplain : plain.read cs = .error flaw) :
    ∃ flaw', strict.read cs = .error flaw' := by
  simpa only [Agrees, hplain] using h cs

theorem Decodes.map (g : β → γ) : Decodes (strict.map g) plain fun a => (f a).map g := by
  intro cs
  cases hplain : plain.read cs with
  | error flaw =>
    obtain ⟨flaw', hstrict⟩ := h.of_error hplain
    exact ⟨flaw', by simp only [Reader.map, hstrict]⟩
  | ok first =>
    obtain ⟨a, rest⟩ := first
    simp only [Agrees, Reader.map, h.of_ok hplain]
    cases f a <;> rfl

omit h in
theorem Decodes.of_map {e : γ → α} {plain : CharReader γ}
    (h : Decodes strict plain fun c => f (e c)) : Decodes strict (plain.map e) f := by
  intro cs
  cases hplain : plain.read cs with
  | error flaw =>
    simp only [Reader.map, hplain]
    exact h.of_error hplain
  | ok first =>
    obtain ⟨c, rest⟩ := first
    simp only [Reader.map, hplain]
    exact h.of_ok hplain

theorem Decodes.behindColon : Decodes (behindColon strict) (behindColon plain) f := by
  intro cs
  show Agrees f (readBehindColon plain cs) (readBehindColon strict cs)
  unfold readBehindColon
  split
  · exact h _
  · exact ⟨_, rfl⟩

/-- One item after the other is decoded as it is read. -/
theorem readSomeItems_agrees (cs : List Char) :
    Agrees (List.mapM f) (readSomeItems plain cs) (readSomeItems strict cs) := by
  fun_induction readSomeItems plain cs with
  | case1 cs flaw hplain =>
    obtain ⟨flaw', hstrict⟩ := h.of_error hplain
    exact ⟨flaw', by rw [readSomeItems_eq, hstrict]⟩
  | case2 cs a rest hplain _ _ rest' hclose =>
    rw [readSomeItems_eq, h.of_ok hplain]
    cases hf : f a with
    | none => simp [Agrees, decoded, hf]
    | some b => simp [Agrees, decoded, hf, hclose]
  | case3 cs a rest hplain _ _ rest' hcomma flaw hmore ih =>
    rw [hmore] at ih
    obtain ⟨flaw', hstrict⟩ := ih
    rw [readSomeItems_eq, h.of_ok hplain]
    cases f a with
    | none => exact ⟨.mistyped, rfl⟩
    | some b => exact ⟨flaw', by simp only [decoded, hcomma, hstrict]⟩
  | case4 cs a rest hplain _ _ rest' hcomma more rest'' hmore ih =>
    rw [hmore] at ih
    rw [readSomeItems_eq, h.of_ok hplain]
    cases hf : f a with
    | none => simp [Agrees, decoded, hf]
    | some b =>
      simp only [Agrees] at ih
      simp only [Agrees, decoded, hcomma, ih, List.mapM_cons, hf]
      cases List.mapM f more <;> rfl
  | case5 cs a rest hplain _ _ hclose hcomma =>
    rw [readSomeItems_eq, h.of_ok hplain]
    cases f a with
    | none => exact ⟨.mistyped, rfl⟩
    | some b =>
      exact ⟨misfit (skipRoom rest), by simp only [decoded]⟩

theorem readItems_agrees (cs : List Char) :
    Agrees (List.mapM f) (readItems plain cs) (readItems strict cs) := by
  unfold readItems
  split
  · exact ⟨.ended, rfl⟩
  · rfl
  · exact readSomeItems_agrees h _

end

/-! ## What a value begins with -/

theorem exists_spells_of_read {n : Nat} {value : Json}
    (h : (valueAt n).read cs = .ok (value, rest)) :
    ∃ text, skipRoom cs = text ++ rest ∧ Spells text value := by
  obtain ⟨room, text, hroom, rfl, hspells, -⟩ := (recognizes_valueAt n).of_read h
  obtain ⟨c, back, rfl, hc, -⟩ := hspells.beginsItem
  refine ⟨c :: back, ?_, hspells⟩
  rw [List.cons_append, skipRoom_append_cons hroom hc]

theorem Spells.exists_bracket {text : List Char} {items : List Json}
    (h : Spells text (.array items)) : ∃ back, text = '[' :: back := by
  generalize hvalue : Json.array items = value at h
  cases h with
  | scalar h =>
    have hdepth := h.depth_eq_zero
    rw [← hvalue] at hdepth
    cases hdepth
  | array h => cases h with | _ => exact ⟨_, rfl⟩
  | object h => cases hvalue

theorem Spells.exists_brace {text : List Char} {members : List (String × Json)}
    (h : Spells text (.object members)) : ∃ back, text = '{' :: back := by
  generalize hvalue : Json.object members = value at h
  cases h with
  | scalar h =>
    have hdepth := h.depth_eq_zero
    rw [← hvalue] at hdepth
    cases hdepth
  | array h => cases hvalue
  | object h => cases h with | _ => exact ⟨_, rfl⟩

/-- Where there is a value, the only flaw of another type is that of the type. -/
theorem otherType_of_read {n : Nat} {value : Json}
    (h : (valueAt n).read cs = .ok (value, rest)) : otherType (skipRoom cs) = .mistyped := by
  obtain ⟨text, hskip, hspells⟩ := exists_spells_of_read h
  obtain ⟨c, back, rfl, -⟩ := hspells.beginsItem
  rw [List.cons_append] at hskip
  by_cases hbracket : c = '['
  · rw [hskip, hbracket]
    rfl
  by_cases hbrace : c = '{'
  · rw [hskip, hbrace]
    rfl
  rw [read_valueAt_of_scalar n hskip hbracket hbrace] at h
  rw [hskip, otherType, h]
  · rintro more ⟨⟩
    exact hbracket rfl
  · rintro more ⟨⟩
    exact hbrace rfl

end TypeNotation.Json
