import Mathlib.Data.List.Basic
import TypeNotation.Proofs.Grammar.Clear

set_option autoImplicit false

/-! # Reading inverts writing

`Reader.Inverts` says that a reader takes off exactly what some writer writes, as far as what is
written fits in front of the symbol that follows. Each reader of the grammar inverts `tokens` on
the clear trees, with one lemma for each direction and each rule: what is read was written (`of`),
and what is written is read (`on`). The readers are stacked by the room they leave for shapes, so
the whole is an induction on that room; `read_eq_ok_iff` is its result. -/

namespace TypeNotation

/-- The reader succeeds exactly where something stands that fits in front of the next symbol, and
    then takes off just that. -/
structure Reader.Inverts {σ ε α : Type} (r : Reader σ ε α) (write : α → List σ)
    (Fits : Option σ → α → Prop) : Prop where
  of_read : ∀ {input rest : List σ} {a : α}, r.read input = .ok (a, rest) →
    input = write a ++ rest ∧ Fits rest.head? a
  read_on : ∀ (a : α) (rest : List σ), Fits rest.head? a →
    r.read (write a ++ rest) = .ok (a, rest)

namespace Grammar

/-! ## The first tokens of a list -/

theorem head?_ne_some_iff {ts : List Token} {t : Token} :
    ts.head? ≠ some t ↔ ∀ after, ts ≠ t :: after := by
  simp [List.head?_eq_some_iff]

/-- What stands behind a list that is not empty matters for its second token only by its first. -/
theorem getElem?_one_append_head? {l : List Token} (hl : l ≠ []) (ts : List Token) :
    (l ++ ts.head?.toList)[1]? = (l ++ ts)[1]? := by
  match l, ts with
  | [], _ => exact absurd rfl hl
  | [_], [] => rfl
  | [_], _ :: _ => rfl
  | _ :: _ :: _, _ => rfl

/-! ## Single tokens -/

theorem expect_cons_self (t : Token) (ts : List Token) : expect t (t :: ts) = .ok ts := by
  simp [expect]

theorem eq_cons_of_expect {t : Token} {ts rest : List Token} (h : expect t ts = .ok rest) :
    ts = t :: rest := by
  unfold expect at h
  split at h
  · simp at h
  · split at h
    · next ht =>
      cases h
      rw [ht]
    · simp at h

/-- No label is seen unless `::` stands second. -/
theorem takeLabel_on {label : Option Token} {ts : List Token}
    (h : label = none → ts[1]? ≠ some .doubleColon) :
    takeLabel (labelTokens label ++ ts) = (label, ts) := by
  cases label with
  | some l => rfl
  | none =>
    simp only [labelTokens, List.nil_append]
    unfold takeLabel
    split
    · simp at h
    · rfl

theorem of_takeLabel {label : Option Token} {ts rest : List Token}
    (h : takeLabel ts = (label, rest)) :
    ts = labelTokens label ++ rest ∧ (label = none → rest[1]? ≠ some .doubleColon) := by
  unfold takeLabel at h
  split at h
  · cases h
    simp [labelTokens]
  · next hts =>
    cases h
    refine ⟨rfl, fun _ hcolon => ?_⟩
    obtain ⟨hlt, hsecond⟩ := List.getElem?_eq_some_iff.1 hcolon
    match ts with
    | [] => simp at hlt
    | [_] => simp at hlt
    | l :: second :: after =>
      obtain rfl : second = .doubleColon := hsecond
      exact hts l after rfl

theorem takeMaybe_on {maybe : Bool} {ts : List Token}
    (h : maybe = false → ts.head? ≠ some maybeToken) :
    takeMaybe (maybeTokens maybe ++ ts) = (maybe, ts) := by
  cases maybe with
  | true => simp [maybeTokens, takeMaybe]
  | false =>
    cases ts with
    | nil => rfl
    | cons t ts =>
      have ht : t ≠ maybeToken := by simpa using h rfl
      simp [maybeTokens, takeMaybe, ht]

theorem of_takeMaybe {maybe : Bool} {ts rest : List Token} (h : takeMaybe ts = (maybe, rest)) :
    ts = maybeTokens maybe ++ rest ∧ (maybe = false → rest.head? ≠ some maybeToken) := by
  unfold takeMaybe at h
  split at h
  · cases h
    simp [maybeTokens]
  · split at h
    · next ht =>
      cases h
      simp [maybeTokens, ht]
    · next ht =>
      cases h
      simp [maybeTokens, ht]

theorem takeComma_on (comma : Bool) (ts : List Token)
    (h : comma = false → ts.head? ≠ some .comma) :
    takeComma (commaTokens comma ++ ts) = (comma, ts) := by
  cases comma with
  | true => rfl
  | false =>
    simp only [commaTokens, Bool.false_eq_true, if_false, List.nil_append]
    unfold takeComma
    split
    · simp at h
    · rfl

theorem of_takeComma {comma : Bool} {ts rest : List Token} (h : takeComma ts = (comma, rest)) :
    ts = commaTokens comma ++ rest ∧ (comma = false → rest.head? ≠ some .comma) := by
  unfold takeComma at h
  split at h
  · cases h
    simp [commaTokens]
  · next hts =>
    cases h
    exact ⟨rfl, fun _ => head?_ne_some_iff.2 hts⟩

theorem startsShape_eq_false_iff {ts : List Token} :
    startsShape ts = false ↔ ∀ t ∈ ts.head?, t.opens = false := by
  cases ts <;> simp [startsShape]

theorem ofToken?_token (name : Name) : Name.ofToken? name.token = some name := by
  cases name <;> rfl

theorem ofToken?_eq_none_of_opens {t : Token} (h : t.opens = true) : Name.ofToken? t = none := by
  cases t <;> simp_all [Token.opens, Name.ofToken?]

/-! ## Unions -/

variable {room : Nat}

theorem variant_inverts {shape : TokenReader ShapeTree}
    (hs : shape.Inverts ShapeTree.tokens (ShapeTree.Fits room)) :
    (variant shape).Inverts VariantTree.tokens (VariantTree.Fits room) where
  of_read {ts rest v} h := by
    change readVariant shape ts = .ok (v, rest) at h
    unfold readVariant at h
    split at h
    · simp at h
    · next t after =>
      split at h
      · split at h
        · simp at h
        · next s _ hread =>
          cases h
          obtain ⟨heq, hfits⟩ := hs.of_read hread
          exact ⟨heq, hfits⟩
      · next name hname =>
        have ht := Name.token_of_ofToken? hname
        split at h
        · split at h
          · simp at h
          · next s _ hread =>
            cases h
            obtain ⟨heq, hfits⟩ := hs.of_read hread
            exact ⟨by rw [heq, ← ht]; rfl, hfits⟩
        · next hstarts =>
          -- a bracket behind the name would have been read as its shape
          cases h
          refine ⟨by rw [← ht]; rfl, ?_, Nat.zero_le _⟩
          exact startsShape_eq_false_iff.1 (by simpa using hstarts)
  read_on v rest h := by
    change readVariant shape (v.tokens ++ rest) = .ok (v, rest)
    obtain ⟨hclear, hnesting⟩ := h
    cases v with
    | bare name =>
      have hstarts : startsShape rest = false := startsShape_eq_false_iff.2 hclear
      simp [VariantTree.tokens, readVariant, ofToken?_token, hstarts]
    | shaped name s =>
      obtain ⟨t, ts, hts, hopens⟩ := s.exists_tokens_eq
      have hread := hs.read_on s rest ⟨hclear, hnesting⟩
      have hstarts : startsShape (s.tokens ++ rest) = true := by rw [hts]; exact hopens
      simp [VariantTree.tokens, readVariant, ofToken?_token, hstarts, hread]
    | anonymous s =>
      obtain ⟨t, ts, hts, hopens⟩ := s.exists_tokens_eq
      have hread := hs.read_on s rest ⟨hclear, hnesting⟩
      rw [hts] at hread
      simp only [VariantTree.tokens, hts, List.cons_append] at hread ⊢
      simp [readVariant, ofToken?_eq_none_of_opens hopens, hread]

/-- `readVariants` without the bookkeeping of its termination. -/
theorem readVariants_eq (variant : TokenReader VariantTree) (ts : List Token) :
    readVariants variant ts =
      match variant.read ts with
      | .error stop => .error stop
      | .ok (v, .pipe :: rest) =>
        match readVariants variant rest with
        | .error stop => .error stop
        | .ok (vs, rest) => .ok (.more v vs, rest)
      | .ok (v, rest) => .ok (.last v, rest) := by
  rw [readVariants]
  split
  · next h => rw [h]
  · next v rest h =>
    cases hrest : readVariants variant rest with
    | error stop => simp only [h, hrest]
    | ok first => simp only [h, hrest]
  · next hne h =>
    rw [h]
    split
    · simp_all
    · simp_all
    · simp_all

theorem of_readVariants {variant : TokenReader VariantTree}
    (hv : variant.Inverts VariantTree.tokens (VariantTree.Fits room)) {ts rest : List Token}
    {vs : VariantsTree} (h : readVariants variant ts = .ok (vs, rest)) :
    ts = vs.tokens ++ rest ∧ vs.Fits room rest.head? := by
  fun_induction readVariants variant ts generalizing vs with
  | case1 => simp at h
  | case2 => simp at h
  | case3 ts v after hread _ vs' rest' hrest ih =>
    cases h
    obtain ⟨heq, hclear, hnesting⟩ := hv.of_read hread
    obtain ⟨heq', hclear', hnesting'⟩ := ih hrest
    refine ⟨?_, ⟨hclear, hclear'⟩, Nat.max_le.2 ⟨hnesting, hnesting'⟩⟩
    rw [heq, heq', VariantsTree.tokens, List.append_assoc, List.cons_append]
  | case4 ts v rest' hne hread =>
    cases h
    obtain ⟨heq, hclear, hnesting⟩ := hv.of_read hread
    exact ⟨heq, ⟨head?_ne_some_iff.2 hne, hclear⟩, hnesting⟩

theorem readVariants_on {variant : TokenReader VariantTree}
    (hv : variant.Inverts VariantTree.tokens (VariantTree.Fits room)) (rest : List Token)
    (vs : VariantsTree) (h : vs.Fits room rest.head?) :
    readVariants variant (vs.tokens ++ rest) = .ok (vs, rest) := by
  obtain ⟨hclear, hnesting⟩ := h
  cases vs with
  | last v =>
    have hread := hv.read_on v rest ⟨hclear.2, hnesting⟩
    rw [VariantsTree.tokens, readVariants_eq, hread]
    split
    · simp_all
    · next h =>
      cases h
      exact absurd rfl hclear.1
    · simp_all
  | more v vs =>
    have hread := hv.read_on v (.pipe :: (vs.tokens ++ rest))
      ⟨hclear.1, Nat.le_trans (Nat.le_max_left _ _) hnesting⟩
    have ih := readVariants_on hv rest vs ⟨hclear.2, Nat.le_trans (Nat.le_max_right _ _) hnesting⟩
    rw [VariantsTree.tokens, List.append_assoc, List.cons_append, readVariants_eq, hread]
    simp only [ih]

theorem variants_inverts {variant : TokenReader VariantTree}
    (hv : variant.Inverts VariantTree.tokens (VariantTree.Fits room)) :
    (variants variant).Inverts VariantsTree.tokens (VariantsTree.Fits room) where
  of_read h := of_readVariants hv h
  read_on vs rest h := readVariants_on hv rest vs h

theorem of_readUnion {vs : TokenReader VariantsTree}
    (hvs : vs.Inverts VariantsTree.tokens (VariantsTree.Fits room)) {ts rest : List Token}
    {tree : ExprTree} (h : readUnion vs ts = .ok (tree, rest)) :
    ts = tree.tokens ++ rest ∧ tree.Fits room rest.head? := by
  unfold readUnion at h
  split at h
  next label ts₁ hlabel =>
    split at h
    next maybe ts₂ hmaybe =>
      split at h
      · simp at h
      · next of _ hread =>
        cases h
        obtain ⟨heq₁, hsecond⟩ := of_takeLabel hlabel
        obtain ⟨heq₂, hfirst⟩ := of_takeMaybe hmaybe
        obtain ⟨heq₃, hclear, hnesting⟩ := hvs.of_read hread
        subst heq₁ heq₂ heq₃
        -- `of` is not empty, so only the first token behind it can be the second token of all
        rw [List.head?_append_of_ne_nil _ of.tokens_ne_nil] at hfirst
        refine ⟨by simp [ExprTree.tokens], ⟨?_, hfirst, hclear⟩, hnesting⟩
        rw [getElem?_one_append_head? (by simp [of.tokens_ne_nil])]
        simpa using hsecond

theorem readUnion_on {vs : TokenReader VariantsTree}
    (hvs : vs.Inverts VariantsTree.tokens (VariantsTree.Fits room)) {rest : List Token}
    {tree : ExprTree} (h : tree.Fits room rest.head?) :
    readUnion vs (tree.tokens ++ rest) = .ok (tree, rest) := by
  cases tree with
  | mk label maybe of =>
    obtain ⟨⟨hsecond, hfirst, hclear⟩, hnesting⟩ := h
    rw [getElem?_one_append_head? (by simp [of.tokens_ne_nil])] at hsecond
    have hhead : (of.tokens ++ rest).head? = of.tokens.head? :=
      List.head?_append_of_ne_nil _ of.tokens_ne_nil
    rw [← hhead] at hfirst
    have hlabel := takeLabel_on hsecond
    have hmaybe := takeMaybe_on hfirst
    have hread := hvs.read_on of rest ⟨hclear, hnesting⟩
    simp only [List.append_assoc] at hlabel
    simp only [readUnion, ExprTree.tokens, List.append_assoc, hlabel, hmaybe, hread]

/-- What a reader of unions does, given the label and the `Maybe` in front. -/
theorem read_union_eq {shape : TokenReader ShapeTree} {label : Option Token} {maybe : Bool}
    {ts ts₁ ts₂ : List Token} (hlabel : takeLabel ts = (label, ts₁))
    (hmaybe : takeMaybe ts₁ = (maybe, ts₂)) :
    (union shape).read ts
      = match readVariants (variant shape) ts₂ with
        | .error stop => .error stop
        | .ok (vs, rest) => .ok (.mk label maybe vs, rest) := by
  change readUnion (variants (variant shape)) ts = _
  simp only [readUnion, hlabel, hmaybe]
  rfl

theorem union_inverts {shape : TokenReader ShapeTree}
    (hs : shape.Inverts ShapeTree.tokens (ShapeTree.Fits room)) :
    (union shape).Inverts ExprTree.tokens (ExprTree.Fits room) where
  of_read h := of_readUnion (variants_inverts (variant_inverts hs)) h
  read_on _ _ h := readUnion_on (variants_inverts (variant_inverts hs)) h

/-! ## Shapes -/

theorem readShape_leftBracket (u : TokenReader ExprTree) {ts : List Token}
    (hbracket : ts.head? ≠ some .rightBracket) :
    readShape u (.leftBracket :: ts)
      = match u.read ts with
        | .error stop => .error stop
        | .ok (of, rest) =>
          match expect .rightBracket rest with
          | .error stop => .error stop
          | .ok rest => .ok (.array of, rest) := by
  cases ts with
  | nil => rfl
  | cons t ts =>
    cases t with
    | rightBracket => exact absurd rfl hbracket
    | _ => rfl

theorem readShape_leftParen (u : TokenReader ExprTree) {ts : List Token}
    (hparen : ts.head? ≠ some .rightParen) :
    readShape u (.leftParen :: ts)
      = match readSlots u ts with
        | .error stop => .error stop
        | .ok (of, rest) => .ok (.tuple of, rest) := by
  cases ts with
  | nil => rfl
  | cons t ts =>
    cases t with
    | rightParen => exact absurd rfl hparen
    | _ => rfl

theorem readSlots_eq (union : TokenReader ExprTree) (ts : List Token) :
    readSlots union ts =
      match union.read ts with
      | .error stop => .error stop
      | .ok (of, rest) =>
        match takeComma rest with
        | (_, []) => .error ⟨.unexpectedEnd, []⟩
        | (comma, .rightParen :: rest) => .ok (.last of comma, rest)
        | (comma, rest) =>
          match readSlots union rest with
          | .error stop => .error stop
          | .ok (slots, rest) => .ok (.more of comma slots, rest) := by
  rw [readSlots]
  split
  · next h => rw [h]
  · next h =>
    simp only [h]
    split
    · next hc => rw [hc]
    · next hc => rw [hc]
    · next hc => rw [hc]; split <;> simp_all

theorem readFields_key_eq (union : TokenReader ExprTree) (key : String) (ts : List Token) :
    readFields union (.identifier key :: .colon :: ts) =
      match union.read ts with
      | .error stop => .error stop
      | .ok (of, rest) =>
        match takeComma rest with
        | (_, []) => .error ⟨.unexpectedEnd, []⟩
        | (comma, .rightBrace :: rest) => .ok (.last key of comma, rest)
        | (comma, rest) =>
          match readFields union rest with
          | .error stop => .error stop
          | .ok (fields, rest) => .ok (.more key of comma fields, rest) := by
  rw [readFields]
  split
  · next h => simp [expect] at h
  · next rest h =>
    have hrest : ts = rest := by simpa [expect] using h
    subst hrest
    split
    · next h => rw [h]
    · next h =>
      simp only [h]
      split
      · next hc => rw [hc]
      · next hc => rw [hc]
      · next hc => rw [hc]; split <;> simp_all

theorem of_readSlots {union : TokenReader ExprTree}
    (hu : union.Inverts ExprTree.tokens (ExprTree.Fits room)) {ts rest : List Token}
    {slots : SlotsTree} (h : readSlots union ts = .ok (slots, rest)) :
    ts = slots.tokens ++ .rightParen :: rest ∧ slots.Clear ∧ slots.nesting ≤ room := by
  fun_induction readSlots union ts generalizing slots with
  | case1 => simp at h
  | case2 => simp at h
  | case3 ts of after hread _ _ comma rest' hcomma =>
    cases h
    obtain ⟨rfl, hclear, hnesting⟩ := hu.of_read hread
    obtain ⟨rfl, -⟩ := of_takeComma hcomma
    refine ⟨by simp [SlotsTree.tokens], ?_, hnesting⟩
    -- the token behind the slot is the comma or the closing parenthesis
    cases comma <;> exact hclear
  | case4 => simp at h
  | case5 ts of after hread _ _ comma after' _ hne hcomma slots' rest' hrest ih =>
    cases h
    obtain ⟨rfl, hclear, hnesting⟩ := hu.of_read hread
    obtain ⟨rfl, hnocomma⟩ := of_takeComma hcomma
    obtain ⟨rfl, hclear', hnesting'⟩ := ih hrest
    have hslots := slots'.tokens_ne_nil
    have hparen := head?_ne_some_iff.2 hne
    rw [List.head?_append_of_ne_nil _ hslots] at hnocomma hparen
    rw [← List.append_assoc, List.head?_append_of_ne_nil _ (by simp [hslots])] at hclear
    exact ⟨by simp [SlotsTree.tokens], ⟨hclear, hnocomma, hparen, hclear'⟩,
      Nat.max_le.2 ⟨hnesting, hnesting'⟩⟩

theorem readSlots_on {union : TokenReader ExprTree}
    (hu : union.Inverts ExprTree.tokens (ExprTree.Fits room)) (rest : List Token)
    (slots : SlotsTree) (hclear : slots.Clear) (hnesting : slots.nesting ≤ room) :
    readSlots union (slots.tokens ++ .rightParen :: rest) = .ok (slots, rest) := by
  cases slots with
  | last of comma =>
    have hread := hu.read_on of (commaTokens comma ++ .rightParen :: rest)
      ⟨by cases comma <;> exact hclear, hnesting⟩
    have hcomma := takeComma_on comma (.rightParen :: rest) (by simp)
    rw [SlotsTree.tokens, List.append_assoc, readSlots_eq, hread]
    simp only [hcomma]
  | more of comma slots =>
    obtain ⟨hof, hnocomma, hparen, hslots⟩ := hclear
    have hne := slots.tokens_ne_nil
    have hhead : (slots.tokens ++ .rightParen :: rest).head? = slots.tokens.head? :=
      List.head?_append_of_ne_nil _ hne
    rw [← hhead] at hnocomma hparen
    rw [SlotsTree.nesting, Nat.max_le] at hnesting
    have hread := hu.read_on of
      (commaTokens comma ++ (slots.tokens ++ .rightParen :: rest))
      ⟨by rwa [← List.append_assoc, List.head?_append_of_ne_nil _ (by simp [hne])], hnesting.1⟩
    have hcomma := takeComma_on comma _ hnocomma
    have ih := readSlots_on hu rest slots hslots hnesting.2
    rw [SlotsTree.tokens, List.append_assoc, List.append_assoc, readSlots_eq, hread]
    simp only [hcomma]
    -- there is a further slot, so neither the end nor the closing parenthesis comes next
    split
    · simp_all
    · next h => exact absurd (Prod.mk.inj h).2 (head?_ne_some_iff.1 hparen _)
    · next h =>
      cases h
      simp only [ih]

theorem of_readFields {union : TokenReader ExprTree}
    (hu : union.Inverts ExprTree.tokens (ExprTree.Fits room)) {ts rest : List Token}
    {fields : FieldsTree} (h : readFields union ts = .ok (fields, rest)) :
    ts = fields.tokens ++ .rightBrace :: rest ∧ fields.Clear ∧ fields.nesting ≤ room := by
  fun_induction readFields union ts generalizing fields with
  | case1 => simp at h
  | case2 ts after hbrace =>
    cases h
    rw [eq_cons_of_expect hbrace]
    exact ⟨rfl, trivial, Nat.zero_le _⟩
  | case3 => simp at h
  | case4 => simp at h
  | case5 => simp at h
  | case6 key ts after hcolon _ of _ hread _ _ comma rest' hcomma =>
    cases h
    obtain rfl := eq_cons_of_expect hcolon
    obtain ⟨rfl, hclear, hnesting⟩ := hu.of_read hread
    obtain ⟨rfl, -⟩ := of_takeComma hcomma
    refine ⟨by simp [FieldsTree.tokens], ?_, hnesting⟩
    cases comma <;> exact hclear
  | case7 => simp at h
  | case8 key ts after hcolon _ of _ hread _ _ comma _ _ _ hcomma fields' rest' hrest ih =>
    cases h
    obtain rfl := eq_cons_of_expect hcolon
    obtain ⟨rfl, hclear, hnesting⟩ := hu.of_read hread
    obtain ⟨rfl, -⟩ := of_takeComma hcomma
    obtain ⟨rfl, hclear', hnesting'⟩ := ih hrest
    refine ⟨by simp [FieldsTree.tokens], ⟨?_, hclear'⟩, Nat.max_le.2 ⟨hnesting, hnesting'⟩⟩
    have hne : commaTokens comma ++ fields'.tokens ≠ [] := by simp [fields'.tokens_ne_nil]
    rwa [← List.append_assoc, List.head?_append_of_ne_nil _ hne] at hclear
  | case9 => simp at h

theorem readFields_on {union : TokenReader ExprTree}
    (hu : union.Inverts ExprTree.tokens (ExprTree.Fits room)) (rest : List Token)
    (fields : FieldsTree) (hclear : fields.Clear) (hnesting : fields.nesting ≤ room) :
    readFields union (fields.tokens ++ .rightBrace :: rest) = .ok (fields, rest) := by
  cases fields with
  | ellipsis =>
    rw [FieldsTree.tokens, List.singleton_append, readFields, expect_cons_self]
  | last key of comma =>
    have hread := hu.read_on of (commaTokens comma ++ .rightBrace :: rest)
      ⟨by cases comma <;> exact hclear, hnesting⟩
    have hcomma := takeComma_on comma (.rightBrace :: rest) (by simp)
    simp only [FieldsTree.tokens, List.cons_append, List.append_assoc, readFields_key_eq, hread,
      hcomma]
  | more key of comma fields =>
    obtain ⟨hof, hfields⟩ := hclear
    have hne := fields.tokens_ne_nil
    rw [FieldsTree.nesting, Nat.max_le] at hnesting
    have hread := hu.read_on of
      (commaTokens comma ++ (fields.tokens ++ .rightBrace :: rest))
      ⟨by rwa [← List.append_assoc, List.head?_append_of_ne_nil _ (by simp [hne])], hnesting.1⟩
    have hnocomma := fields.head?_tokens_ne (t := .comma) (by simp) (by simp)
    have hbrace := fields.head?_tokens_ne (t := .rightBrace) (by simp) (by simp)
    have hhead : (fields.tokens ++ .rightBrace :: rest).head? = fields.tokens.head? :=
      List.head?_append_of_ne_nil _ hne
    rw [← hhead] at hnocomma hbrace
    have hcomma := takeComma_on comma _ fun _ => hnocomma
    have ih := readFields_on hu rest fields hfields hnesting.2
    simp only [FieldsTree.tokens, List.cons_append, List.append_assoc, readFields_key_eq, hread,
      hcomma]
    split
    · simp_all
    · next h => exact absurd (Prod.mk.inj h).2 (head?_ne_some_iff.1 hbrace _)
    · next h =>
      cases h
      simp only [ih]

theorem shape_inverts {union : TokenReader ExprTree}
    (hu : union.Inverts ExprTree.tokens (ExprTree.Fits room)) :
    (shape union).Inverts ShapeTree.tokens (ShapeTree.Fits (room + 1)) where
  of_read {ts rest s} h := by
    change readShape union ts = .ok (s, rest) at h
    unfold readShape at h
    split at h
    · simp at h
    · simp at h
    · next ts hne =>
      split at h
      · simp at h
      · next of after hread =>
        split at h
        · simp at h
        · next hbracket =>
          cases h
          obtain rfl := eq_cons_of_expect hbracket
          obtain ⟨rfl, hclear, hnesting⟩ := hu.of_read hread
          have hhead := head?_ne_some_iff.2 hne
          rw [List.head?_append_of_ne_nil _ of.tokens_ne_nil] at hhead
          exact ⟨by simp [ShapeTree.tokens], ⟨hhead, hclear⟩, Nat.succ_le_succ hnesting⟩
    · next ts hne =>
      split at h
      · simp at h
      · next slots after hread =>
        cases h
        obtain ⟨rfl, hclear, hnesting⟩ := of_readSlots hu hread
        have hhead := head?_ne_some_iff.2 hne
        rw [List.head?_append_of_ne_nil _ slots.tokens_ne_nil] at hhead
        exact ⟨by simp [ShapeTree.tokens], ⟨hhead, hclear⟩, Nat.succ_le_succ hnesting⟩
    · next ts =>
      split at h
      · simp at h
      · next fields after hread =>
        cases h
        obtain ⟨rfl, hclear, hnesting⟩ := of_readFields hu hread
        exact ⟨by simp [ShapeTree.tokens], hclear, Nat.succ_le_succ hnesting⟩
    · simp at h
  read_on s rest h := by
    change readShape union (s.tokens ++ rest) = .ok (s, rest)
    obtain ⟨hclear, hnesting⟩ := h
    cases s with
    | array of =>
      have hread := hu.read_on of (.rightBracket :: rest)
        ⟨hclear.2, Nat.le_of_succ_le_succ hnesting⟩
      -- `hne` tells `simp` that this is not the rule for empty brackets
      have hhead : (of.tokens ++ .rightBracket :: rest).head? = of.tokens.head? :=
        List.head?_append_of_ne_nil _ of.tokens_ne_nil
      have hne := head?_ne_some_iff.1 (hhead ▸ hclear.1)
      simp [ShapeTree.tokens, readShape, hread, expect_cons_self]
    | tuple slots =>
      have hread := readSlots_on hu rest slots hclear.2 (Nat.le_of_succ_le_succ hnesting)
      have hhead : (slots.tokens ++ .rightParen :: rest).head? = slots.tokens.head? :=
        List.head?_append_of_ne_nil _ slots.tokens_ne_nil
      have hne := head?_ne_some_iff.1 (hhead ▸ hclear.1)
      simp [ShapeTree.tokens, readShape, hread]
    | fields fields =>
      have hread := readFields_on hu rest fields hclear (Nat.le_of_succ_le_succ hnesting)
      simp [ShapeTree.tokens, readShape, hread]

theorem noShape_inverts (limit : Nat) :
    (noShape limit).Inverts ShapeTree.tokens (ShapeTree.Fits 0) where
  of_read {ts rest s} h := by
    simp only [noShape] at h
    split at h <;> simp at h
  read_on s rest h := by
    have hnesting := h.2
    cases s <;> simp [ShapeTree.nesting] at hnesting

/-- By induction on the room that is left: shapes inside a shape have room for one fewer. -/
theorem shapeAt_inverts (limit room : Nat) :
    (shapeAt limit room).Inverts ShapeTree.tokens (ShapeTree.Fits room) := by
  induction room with
  | zero => exact noShape_inverts limit
  | succ room ih => exact shape_inverts (union_inverts ih)

/-! ## Whole specifications -/

theorem read_eq_union (limit : Nat) {ts : List Token} (h : ts.head? ≠ some .doubleColon) :
    read limit ts = (union (shapeAt limit limit)).read ts := by
  unfold read
  split
  · exact absurd rfl h
  · rfl

/-- A list of tokens is read as a tree exactly if it begins with the tokens of that tree, the tree
    is clear in front of what is left and not too deep, and the list does not begin with `::`. -/
theorem read_eq_ok_iff {limit : Nat} {ts rest : List Token} {tree : ExprTree} :
    read limit ts = .ok (tree, rest) ↔
      ts = tree.tokens ++ rest ∧ tree.Clear rest.head? ∧ tree.nesting ≤ limit ∧
        tree.tokens.head? ≠ some .doubleColon := by
  have hu := union_inverts (shapeAt_inverts limit limit)
  have hhead : (tree.tokens ++ rest).head? = tree.tokens.head? :=
    List.head?_append_of_ne_nil _ tree.tokens_ne_nil
  unfold read
  split
  · next after =>
    simp only [reduceCtorEq, false_iff, not_and]
    intro h _ _
    rw [← hhead, ← h]
    simp
  · next hne =>
    constructor
    · intro h
      obtain ⟨rfl, hclear, hnesting⟩ := hu.of_read h
      refine ⟨rfl, hclear, hnesting, fun hcolon => ?_⟩
      obtain ⟨after, hafter⟩ := List.head?_eq_some_iff.1 (hhead.trans hcolon)
      exact hne after hafter
    · rintro ⟨rfl, hclear, hnesting, -⟩
      exact hu.read_on tree rest ⟨hclear, hnesting⟩

end Grammar
end TypeNotation
