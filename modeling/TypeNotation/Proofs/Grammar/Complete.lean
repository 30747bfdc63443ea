import TypeNotation.Proofs.Grammar.Extend
import TypeNotation.Proofs.Grammar.Unambiguous

set_option autoImplicit false

/-! # Tokens that can be completed

Whatever a reader had to leave unfinished for want of tokens can be finished: a missing variant is
filled by a name, a missing field by `...`, and open brackets are closed (`exists_read_append`). No
label is needed for that, and no further shape, for which there might be no room. -/

namespace TypeNotation

/-! ## Trees in front of a token that ends them -/

theorem Token.ends_iff {t : Token} :
    t.ends = true ↔ t ≠ .pipe ∧ t ≠ .doubleColon ∧ t.opens = false := by
  simp [Token.ends, and_assoc]

theorem VariantsTree.Clear.of_ends {vs : VariantsTree} {next next' : Option Token}
    (h : vs.Clear next) (hends : ∀ t ∈ next', t.ends = true) : vs.Clear next' := by
  cases vs with
  | last v =>
    refine ⟨?_, ?_⟩
    · rintro rfl
      exact (Token.ends_iff.1 (hends _ rfl)).1 rfl
    · cases v with
      | bare name => exact fun t ht => (Token.ends_iff.1 (hends t ht)).2.2
      | shaped name s => exact h.2
      | anonymous s => exact h.2
  | more v rest => exact ⟨h.1, VariantsTree.Clear.of_ends h.2 hends⟩

/-- A tree that is clear in front of one token is clear in front of any that ends it. -/
theorem ExprTree.Clear.of_ends {tree : ExprTree} {next next' : Option Token}
    (h : tree.Clear next) (hends : ∀ t ∈ next', t.ends = true) : tree.Clear next' := by
  cases tree with
  | mk label maybe of =>
    obtain ⟨hsecond, hmaybe, hof⟩ := h
    refine ⟨fun hlabel => ?_, hmaybe, VariantsTree.Clear.of_ends hof hends⟩
    have hne : maybeTokens maybe ++ of.tokens ≠ [] := by simp [of.tokens_ne_nil]
    match hts : maybeTokens maybe ++ of.tokens, hne with
    | [t], _ =>
      rintro hcolon
      cases next' with
      | none => cases hcolon
      | some t' =>
        obtain rfl : t' = .doubleColon := by simpa using hcolon
        exact (Token.ends_iff.1 (hends _ rfl)).2.1 rfl
    | t :: u :: after, _ => simpa [hts] using hsecond hlabel

namespace Grammar

variable {room : Nat} {ts more : List Token} {stop : Stop}

/-! ## Lists of tokens -/

theorem head?_eq_of_append_eq {l l' : List Token} (h : ts ++ more = l ++ l') (hts : ts ≠ [])
    (hl : l ≠ []) : l.head? = ts.head? := by
  rw [← List.head?_append_of_ne_nil l hl, ← h, List.head?_append_of_ne_nil ts hts]

theorem getElem?_append_ne {i : Nat} {t : Token} (h : ts[i]? ≠ some t) (hmore : t ∉ more) :
    (ts ++ more)[i]? ≠ some t := by
  rw [List.getElem?_append]
  split
  · exact h
  · exact fun hi => hmore (List.mem_of_getElem? hi)

theorem eq_nil_of_unexpected {expected : Expected}
    (h : (unexpected expected ts).cause = .unexpectedEnd) : ts = [] := by
  cases ts with
  | nil => rfl
  | cons t after => cases h

/-! ## Unions -/

/-- If the reader comes to the end of some tokens, a few more of them, without a label, make them
    up to the tokens of something that fits at the end. -/
def TokenReader.Completes {α : Type} (r : TokenReader α) (write : α → List Token)
    (Fits : Option Token → α → Prop) (ts : List Token) : Prop :=
  ∀ stop : Stop, r.read ts = .error stop → stop.cause = .unexpectedEnd →
    ∃ (more : List Token) (a : α), .doubleColon ∉ more ∧ ts ++ more = write a ∧ Fits none a

/-- The shortest variant, which can stand wherever one is missing. -/
def fillerTree : VariantsTree :=
  .last (.bare (.word "A"))

theorem fillerTree_fits (room : Nat) : fillerTree.Fits room none :=
  ⟨⟨nofun, fun _ => nofun⟩, Nat.zero_le _⟩

theorem variant_completes {shape : TokenReader ShapeTree}
    (hs : ∀ ts ≠ [], shape.Completes ShapeTree.tokens (ShapeTree.Fits room) ts)
    (ts : List Token) :
    (variant shape).Completes VariantTree.tokens (VariantTree.Fits room) ts := by
  intro stop h hcause
  cases variant_eq_error_iff.1 h with
  | atEnd =>
    exact ⟨_, .bare (.word "A"), by simp [Name.token], rfl, fun _ => nofun, Nat.zero_le _⟩
  | @inShapeOf name after _ hstarts h =>
    have hafter : after ≠ [] := by
      rintro rfl
      cases hstarts
    obtain ⟨more, s, hmore, htokens, hfits⟩ := hs after hafter _ h hcause
    exact ⟨more, .shaped name s, hmore, by rw [List.cons_append, htokens]; rfl, hfits⟩
  | inShape _ h =>
    obtain ⟨more, s, hmore, htokens, hfits⟩ := hs _ (List.cons_ne_nil _ _) _ h hcause
    exact ⟨more, .anonymous s, hmore, htokens, hfits⟩

theorem VariantsStop.exists_append {variant : TokenReader VariantTree}
    (hv : variant.Inverts VariantTree.tokens (VariantTree.Fits room))
    (hcompletes : ∀ ts, variant.Completes VariantTree.tokens (VariantTree.Fits room) ts)
    (h : VariantsStop variant ts stop) (hcause : stop.cause = .unexpectedEnd) :
    ∃ (more : List Token) (vs : VariantsTree),
      .doubleColon ∉ more ∧ ts ++ more = vs.tokens ∧ vs.Fits room none := by
  induction h with
  | first h =>
    obtain ⟨more, v, hmore, htokens, hclear, hnesting⟩ := hcompletes _ _ h hcause
    exact ⟨more, .last v, hmore, htokens, ⟨nofun, hclear⟩, hnesting⟩
  | later v hread _ ih =>
    obtain ⟨rfl, hclear, hnesting⟩ := hv.of_read hread
    obtain ⟨more, vs, hmore, htokens, hclear', hnesting'⟩ := ih hcause
    refine ⟨more, .more v vs, hmore, ?_, ⟨hclear, hclear'⟩, Nat.max_le.2 ⟨hnesting, hnesting'⟩⟩
    rw [List.append_assoc, List.cons_append, htokens, VariantsTree.tokens]

theorem union_completes {shape : TokenReader ShapeTree}
    (hs : shape.Inverts ShapeTree.tokens (ShapeTree.Fits room))
    (hcompletes : ∀ ts ≠ [], shape.Completes ShapeTree.tokens (ShapeTree.Fits room) ts)
    (ts : List Token) : (union shape).Completes ExprTree.tokens (ExprTree.Fits room) ts := by
  intro stop h hcause
  obtain ⟨label, ts₁, maybe, ts₂, hlabel, hmaybe, hvariants⟩ := union_eq_error_iff.1 h
  obtain ⟨rfl, hsecond⟩ := of_takeLabel hlabel
  obtain ⟨rfl, hfirst⟩ := of_takeMaybe hmaybe
  -- where no variant has begun, the filler is one that is not called `Maybe`
  obtain ⟨more, vs, hmore, htokens, hplain, hclear, hnesting⟩ :
      ∃ (more : List Token) (vs : VariantsTree), .doubleColon ∉ more ∧ ts₂ ++ more = vs.tokens ∧
        (maybe = false → vs.tokens.head? ≠ some maybeToken) ∧ vs.Fits room none := by
    by_cases hts₂ : ts₂ = []
    · subst hts₂
      exact ⟨_, fillerTree, by decide, rfl, fun _ => by decide, fillerTree_fits room⟩
    · obtain ⟨more, vs, hmore, htokens, hfits⟩ :=
        hvariants.exists_append (variant_inverts hs) (variant_completes hcompletes) hcause
      refine ⟨more, vs, hmore, htokens, fun hnone => ?_, hfits⟩
      rw [← htokens]
      exact head?_append_ne (hfirst hnone) hts₂ more
  refine ⟨more, .mk label maybe vs, hmore, ?_, ⟨?_, hplain, hclear⟩, hnesting⟩
  · rw [ExprTree.tokens, ← htokens, List.append_assoc, List.append_assoc, List.append_assoc]
  · intro hnone
    rw [← htokens, ← List.append_assoc, Option.toList_none, List.append_nil]
    exact getElem?_append_ne (hsecond hnone) hmore

/-! ## Shapes -/

variable {union : TokenReader ExprTree}

/-- The filler with nothing before it. -/
def fillerExpr : ExprTree :=
  .mk none false fillerTree

theorem fillerExpr_clear {next : Option Token} (hends : ∀ t ∈ next, t.ends = true) :
    fillerExpr.Clear next := by
  have hnone : fillerExpr.Clear none :=
    ⟨fun _ => by decide, fun _ => by decide, (fillerTree_fits 0).1⟩
  exact hnone.of_ends hends

/-- What stands in brackets can be completed with its closing bracket. -/
theorem SlotsStop.exists_append (hu : union.Inverts ExprTree.tokens (ExprTree.Fits room))
    (hcompletes : ∀ ts, union.Completes ExprTree.tokens (ExprTree.Fits room) ts)
    (h : SlotsStop union ts stop) (hcause : stop.cause = .unexpectedEnd) :
    ∃ (more : List Token) (slots : SlotsTree), .doubleColon ∉ more ∧
      ts ++ more = slots.tokens ++ [.rightParen] ∧ slots.Clear ∧ slots.nesting ≤ room := by
  induction h with
  | inSlot h =>
    obtain ⟨more, of, hmore, htokens, hclear, hnesting⟩ := hcompletes _ _ h hcause
    refine ⟨more ++ [.rightParen], .last of false, by simp [hmore], ?_, ?_, hnesting⟩
    · rw [← List.append_assoc, htokens]
      simp [SlotsTree.tokens, commaTokens]
    · exact hclear.of_ends (by simp [commaTokens, Token.ends, Token.opens])
  | atEnd of comma hof hcomma =>
    obtain ⟨rfl, hclear, hnesting⟩ := hu.of_read hof
    obtain ⟨rfl, -⟩ := of_takeComma hcomma
    refine ⟨[.rightParen], .last of comma, by simp, by simp [SlotsTree.tokens], ?_, hnesting⟩
    cases comma with
    | true => exact hclear
    | false => exact hclear.of_ends (by simp [commaTokens, Token.ends, Token.opens])
  | later of comma hof hcomma hne hparen _ ih =>
    obtain ⟨rfl, hclear, hnesting⟩ := hu.of_read hof
    obtain ⟨rfl, hnocomma⟩ := of_takeComma hcomma
    obtain ⟨more, slots, hmore, htokens, hclear', hnesting'⟩ := ih hcause
    have hhead := head?_eq_of_append_eq htokens hne slots.tokens_ne_nil
    refine ⟨more, .more of comma slots, hmore, ?_, ⟨?_, ?_, ?_, hclear'⟩,
      Nat.max_le.2 ⟨hnesting, hnesting'⟩⟩
    · simp [SlotsTree.tokens, htokens]
    · rwa [List.head?_append, hhead, ← List.head?_append]
    · rwa [hhead]
    · rwa [hhead]

theorem FieldsStop.exists_append (hu : union.Inverts ExprTree.tokens (ExprTree.Fits room))
    (hcompletes : ∀ ts, union.Completes ExprTree.tokens (ExprTree.Fits room) ts)
    (h : FieldsStop union ts stop) (hcause : stop.cause = .unexpectedEnd) :
    ∃ (more : List Token) (fields : FieldsTree), .doubleColon ∉ more ∧
      ts ++ more = fields.tokens ++ [.rightBrace] ∧ fields.Clear ∧ fields.nesting ≤ room := by
  induction h with
  | noField =>
    obtain rfl := eq_nil_of_unexpected hcause
    exact ⟨[.ellipsis, .rightBrace], .ellipsis, by simp, rfl, trivial, Nat.zero_le _⟩
  | afterEllipsis =>
    obtain rfl := eq_nil_of_unexpected hcause
    exact ⟨[.rightBrace], .ellipsis, by simp, rfl, trivial, Nat.zero_le _⟩
  | noColon key =>
    obtain rfl := eq_nil_of_unexpected hcause
    refine ⟨.colon :: fillerExpr.tokens ++ [.rightBrace], .last key fillerExpr false, by decide,
      rfl, ?_, Nat.zero_le _⟩
    exact fillerExpr_clear (by simp [commaTokens, Token.ends, Token.opens])
  | inField key h =>
    obtain ⟨more, of, hmore, htokens, hclear, hnesting⟩ := hcompletes _ _ h hcause
    refine ⟨more ++ [.rightBrace], .last key of false, by simp [hmore], ?_, ?_, hnesting⟩
    · simp [FieldsTree.tokens, commaTokens, ← htokens]
    · exact hclear.of_ends (by simp [commaTokens, Token.ends, Token.opens])
  | atEnd key of comma hof hcomma =>
    obtain ⟨rfl, hclear, hnesting⟩ := hu.of_read hof
    obtain ⟨rfl, -⟩ := of_takeComma hcomma
    refine ⟨[.rightBrace], .last key of comma, by simp, by simp [FieldsTree.tokens], ?_, hnesting⟩
    cases comma with
    | true => exact hclear
    | false => exact hclear.of_ends (by simp [commaTokens, Token.ends, Token.opens])
  | later key of comma hof hcomma hne hbrace _ ih =>
    obtain ⟨rfl, hclear, hnesting⟩ := hu.of_read hof
    obtain ⟨rfl, -⟩ := of_takeComma hcomma
    obtain ⟨more, fields, hmore, htokens, hclear', hnesting'⟩ := ih hcause
    have hhead := head?_eq_of_append_eq htokens hne fields.tokens_ne_nil
    refine ⟨more, .more key of comma fields, hmore, ?_, ⟨?_, hclear'⟩,
      Nat.max_le.2 ⟨hnesting, hnesting'⟩⟩
    · simp [FieldsTree.tokens, htokens]
    · rwa [List.head?_append, hhead, ← List.head?_append]

theorem shape_completes (hu : union.Inverts ExprTree.tokens (ExprTree.Fits room))
    (hcompletes : ∀ ts, union.Completes ExprTree.tokens (ExprTree.Fits room) ts)
    (hts : ts ≠ []) :
    (shape union).Completes ShapeTree.tokens (ShapeTree.Fits (room + 1)) ts := by
  intro stop h hcause
  cases shape_eq_error_iff.1 h with
  | noShape => exact absurd (eq_nil_of_unexpected hcause) hts
  | emptyArray => cases hcause
  | emptyTuple => cases hcause
  | @inArray after _ hbracket h =>
    obtain ⟨more, of, hmore, htokens, hfirst, hclear, hnesting⟩ :
        ∃ (more : List Token) (of : ExprTree), .doubleColon ∉ more ∧ after ++ more = of.tokens ∧
          of.tokens.head? ≠ some .rightBracket ∧ of.Fits room none := by
      by_cases hafter : after = []
      · subst hafter
        exact ⟨_, fillerExpr, by decide, rfl, by decide, fillerExpr_clear nofun, Nat.zero_le _⟩
      · obtain ⟨more, of, hmore, htokens, hfits⟩ := hcompletes _ _ h hcause
        refine ⟨more, of, hmore, htokens, ?_, hfits⟩
        rw [← htokens]
        exact head?_append_ne hbracket hafter more
    refine ⟨more ++ [.rightBracket], .array of, by simp [hmore], ?_, ⟨hfirst, ?_⟩,
      Nat.succ_le_succ hnesting⟩
    · simp [ShapeTree.tokens, ← htokens]
    · exact hclear.of_ends (by simp [Token.ends, Token.opens])
  | unclosed of hbracket hof =>
    obtain rfl := eq_nil_of_unexpected hcause
    obtain ⟨rfl, hclear, hnesting⟩ := hu.of_read hof
    refine ⟨[.rightBracket], .array of, by simp, by simp [ShapeTree.tokens], ⟨?_, ?_⟩,
      Nat.succ_le_succ hnesting⟩
    · rwa [List.append_nil] at hbracket
    · exact hclear.of_ends (by simp [Token.ends, Token.opens])
  | @inTuple after _ hparen h =>
    obtain ⟨more, slots, hmore, htokens, hfirst, hclear, hnesting⟩ :
        ∃ (more : List Token) (slots : SlotsTree), .doubleColon ∉ more ∧
          after ++ more = slots.tokens ++ [.rightParen] ∧
          slots.tokens.head? ≠ some .rightParen ∧ slots.Clear ∧ slots.nesting ≤ room := by
      by_cases hafter : after = []
      · subst hafter
        have hclear : (SlotsTree.last fillerExpr false).Clear :=
          fillerExpr_clear (by simp [commaTokens, Token.ends, Token.opens])
        exact ⟨_, .last fillerExpr false, by decide, rfl, by decide, hclear, Nat.zero_le _⟩
      · obtain ⟨more, slots, hmore, htokens, hfits⟩ := h.exists_append hu hcompletes hcause
        refine ⟨more, slots, hmore, htokens, ?_, hfits⟩
        rwa [head?_eq_of_append_eq htokens hafter slots.tokens_ne_nil]
    refine ⟨more, .tuple slots, hmore, ?_, ⟨hfirst, hclear⟩, Nat.succ_le_succ hnesting⟩
    rw [List.cons_append, htokens, ShapeTree.tokens, List.cons_append]
  | inFields h =>
    obtain ⟨more, fields, hmore, htokens, hclear, hnesting⟩ := h.exists_append hu hcompletes hcause
    refine ⟨more, .fields fields, hmore, ?_, hclear, Nat.succ_le_succ hnesting⟩
    rw [List.cons_append, htokens, ShapeTree.tokens, List.cons_append]

theorem shapeAt_completes (limit room : Nat) :
    ∀ ts ≠ [], (shapeAt limit room).Completes ShapeTree.tokens (ShapeTree.Fits room) ts := by
  induction room with
  | zero =>
    -- without room the filler is no way out, but a bracket is one too many, not the end
    intro ts hts stop h hcause
    change (noShape limit).read ts = .error stop at h
    simp only [noShape] at h
    split at h
    · cases h
      cases hcause
    · cases h
      exact absurd (eq_nil_of_unexpected hcause) hts
  | succ room ih =>
    intro ts hts
    have hinverts := shapeAt_inverts limit room
    exact shape_completes (union_inverts hinverts) (union_completes hinverts ih) hts

/-- What stops at the end of the tokens can be completed to a whole tree, however deep it stopped
    and though the limit leaves no room for further shapes. -/
theorem exists_read_append {limit : Nat} (h : read limit ts = .error stop)
    (hcause : stop.cause = .unexpectedEnd) :
    ∃ (more : List Token) (tree : ExprTree),
      .doubleColon ∉ more ∧ read limit (ts ++ more) = .ok (tree, []) := by
  unfold read at h
  split at h
  · cases h
    cases hcause
  · next hne =>
    obtain ⟨more, tree, hmore, htokens, hclear, hnesting⟩ :=
      union_completes (shapeAt_inverts limit limit) (shapeAt_completes limit limit) _ _ h hcause
    refine ⟨more, tree, hmore, read_eq_ok_iff.2 ⟨?_, hclear, hnesting, ?_⟩⟩
    · rw [htokens, List.append_nil]
    · rw [← htokens]
      by_cases hts : ts = []
      · subst hts
        exact fun hcolon => hmore (List.mem_of_mem_head? hcolon)
      · exact head?_append_ne (head?_ne_some_iff.2 hne) hts more

end Grammar
end TypeNotation
