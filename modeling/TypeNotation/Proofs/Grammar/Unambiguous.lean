import TypeNotation.Proofs.Grammar.Clear

set_option autoImplicit false

/-! # Trees that are written without ambiguity

`Unambiguous` speaks of a tree alone: its labels look like words or stray characters, `Maybe` is
not the first name of a union, and no slot can be taken for the shape of the slot before it. Such a
tree is clear in front of every token that does not carry on its last union. -/

namespace TypeNotation

/-- A token that has no other meaning where a label may stand. -/
def Token.isLabel : Token → Bool
  | identifier _ | star | other _ => true
  | _ => false

/-- Whether a variant is a name without a shape. -/
def VariantTree.isBare : VariantTree → Bool
  | bare _ => true
  | _ => false

/-- Whether the last variant is a bare name, which a bracket behind it would give a shape. -/
def VariantsTree.endsBare : VariantsTree → Bool
  | last v => v.isBare
  | more _ rest => rest.endsBare

/-- Whether the last variant of a union is a bare name. -/
def ExprTree.endsBare : ExprTree → Bool
  | mk _ _ of => of.endsBare

mutual

/-- The label of a union is a token without another meaning (`Token.isLabel`), and if `maybe` is not
    set, the first variant is not called `Maybe`. -/
def ExprTree.Unambiguous : ExprTree → Prop
  | .mk label maybe of =>
    (∀ l ∈ label, l.isLabel = true) ∧ (maybe = false → of.tokens.head? ≠ some maybeToken) ∧
      of.Unambiguous

/-- Each of the variants is unambiguous. -/
def VariantsTree.Unambiguous : VariantsTree → Prop
  | .last v => v.Unambiguous
  | .more v rest => v.Unambiguous ∧ rest.Unambiguous

/-- The shape of a variant, if it has one, is unambiguous. -/
def VariantTree.Unambiguous : VariantTree → Prop
  | .bare _ => True
  | .shaped _ shape => shape.Unambiguous
  | .anonymous shape => shape.Unambiguous

/-- What is inside a shape is unambiguous. -/
def ShapeTree.Unambiguous : ShapeTree → Prop
  | .array of => of.Unambiguous
  | .tuple of => of.Unambiguous
  | .fields of => of.Unambiguous

/-- Without a comma, a bare name does not stand directly before a slot that begins with a
    bracket. -/
def SlotsTree.Unambiguous : SlotsTree → Prop
  | .last of _ => of.Unambiguous
  | .more of comma rest =>
    of.Unambiguous ∧
      (comma = false → of.endsBare = true → Grammar.startsShape rest.tokens = false) ∧
      rest.Unambiguous

/-- The union of each field is unambiguous. -/
def FieldsTree.Unambiguous : FieldsTree → Prop
  | .last _ of _ => of.Unambiguous
  | .ellipsis => True
  | .more _ of _ rest => of.Unambiguous ∧ rest.Unambiguous

end

/-! ## The first token -/

/-- A token that can be the first of a union. -/
def Token.starts (t : Token) : Bool :=
  t.isLabel || t.opens

/-- Tokens that begin as a union can. -/
def StartUnion (ts : List Token) : Prop :=
  ∃ t after, ts = t :: after ∧ t.starts = true

theorem StartUnion.append {ts : List Token} (h : StartUnion ts) (after : List Token) :
    StartUnion (ts ++ after) := by
  obtain ⟨t, ts, rfl, ht⟩ := h
  exact ⟨t, ts ++ after, List.cons_append, ht⟩

theorem StartUnion.head?_ne {ts : List Token} (h : StartUnion ts) {t : Token}
    (ht : t.starts = false) : ts.head? ≠ some t := by
  obtain ⟨t', ts, rfl, ht'⟩ := h
  rintro ⟨⟩
  rw [ht] at ht'
  cases ht'

theorem Name.starts_token (name : Name) : name.token.starts = true := by
  cases name <;> rfl

theorem ShapeTree.startUnion_tokens (s : ShapeTree) : StartUnion s.tokens := by
  obtain ⟨t, ts, hts, hopens⟩ := s.exists_tokens_eq
  exact ⟨t, ts, hts, by rw [Token.starts, hopens, Bool.or_true]⟩

theorem VariantTree.startUnion_tokens (v : VariantTree) : StartUnion v.tokens := by
  cases v with
  | bare name => exact ⟨_, _, VariantTree.tokens.eq_1 name, name.starts_token⟩
  | shaped name s => exact ⟨_, _, VariantTree.tokens.eq_2 name s, name.starts_token⟩
  | anonymous s => exact s.startUnion_tokens

theorem VariantsTree.startUnion_tokens (vs : VariantsTree) : StartUnion vs.tokens := by
  cases vs with
  | last v => exact v.startUnion_tokens
  | more v rest => exact v.startUnion_tokens.append _

theorem ExprTree.Unambiguous.startUnion_tokens {tree : ExprTree} (h : tree.Unambiguous) :
    StartUnion tree.tokens := by
  cases tree with
  | mk label maybe of =>
    cases label with
    | some l => exact ⟨l, _, rfl, by rw [Token.starts, h.1 l rfl, Bool.true_or]⟩
    | none =>
      cases maybe with
      | true => exact ⟨maybeToken, _, rfl, rfl⟩
      | false => exact of.startUnion_tokens

theorem SlotsTree.Unambiguous.startUnion_tokens {slots : SlotsTree} (h : slots.Unambiguous) :
    StartUnion slots.tokens := by
  cases slots with
  | last of comma => exact (ExprTree.Unambiguous.startUnion_tokens h).append _
  | more of comma rest => exact (h.1.startUnion_tokens.append _).append _

/-! ## The second token -/

/-- Inside a shape nothing looks like the end of a label. -/
theorem ShapeTree.Unambiguous.second_ne {s : ShapeTree} (h : s.Unambiguous) :
    s.tokens[1]? ≠ some .doubleColon := by
  cases s with
  | array of =>
    have hfirst := (ExprTree.Unambiguous.startUnion_tokens h).append [.rightBracket]
    simpa [ShapeTree.tokens, List.head?_eq_getElem?] using hfirst.head?_ne (t := .doubleColon) rfl
  | tuple slots =>
    have hfirst := (SlotsTree.Unambiguous.startUnion_tokens h).append [.rightParen]
    simpa [ShapeTree.tokens, List.head?_eq_getElem?] using hfirst.head?_ne (t := .doubleColon) rfl
  | fields fields =>
    cases fields <;> simp [ShapeTree.tokens, FieldsTree.tokens]

theorem ShapeTree.one_lt_length_tokens (s : ShapeTree) : 1 < s.tokens.length := by
  cases s <;> simp [ShapeTree.tokens]

theorem VariantTree.Unambiguous.second_ne {v : VariantTree} (h : v.Unambiguous)
    {after : List Token}
    (hafter : ∀ name : Name, v.tokens = [name.token] → after.head? ≠ some .doubleColon) :
    (v.tokens ++ after)[1]? ≠ some .doubleColon := by
  cases v with
  | bare name => simpa [VariantTree.tokens, List.head?_eq_getElem?] using hafter name rfl
  | shaped name s =>
    have hfirst := s.startUnion_tokens.append after
    simpa [VariantTree.tokens, List.head?_eq_getElem?] using hfirst.head?_ne (t := .doubleColon) rfl
  | anonymous s =>
    rw [VariantTree.tokens, List.getElem?_append_left s.one_lt_length_tokens]
    exact ShapeTree.Unambiguous.second_ne h

theorem VariantsTree.Unambiguous.second_ne {vs : VariantsTree} (h : vs.Unambiguous)
    {after : List Token}
    (hafter : ∀ name : Name, vs.tokens = [name.token] → after.head? ≠ some .doubleColon) :
    (vs.tokens ++ after)[1]? ≠ some .doubleColon := by
  cases vs with
  | last v => exact VariantTree.Unambiguous.second_ne h hafter
  | more v rest =>
    rw [VariantsTree.tokens, List.append_assoc]
    exact VariantTree.Unambiguous.second_ne h.1 (by simp)

/-! ## No arrow -/

theorem Name.token_ne_arrow (name : Name) : .arrow ≠ name.token := by
  cases name <;> exact nofun

theorem arrow_not_mem_commaTokens (comma : Bool) : .arrow ∉ commaTokens comma := by
  cases comma <;> decide

mutual

/-- There is no function among the types of an unambiguous tree, not even as a label. -/
theorem ExprTree.Unambiguous.arrow_not_mem {tree : ExprTree} (h : tree.Unambiguous) :
    .arrow ∉ tree.tokens := by
  cases tree with
  | mk label maybe of =>
    obtain ⟨hlabel, -, hof⟩ := h
    rw [ExprTree.tokens, List.mem_append, List.mem_append]
    rintro ((harrow | harrow) | harrow)
    · cases label with
      | none => cases harrow
      | some l =>
        have hl := hlabel l rfl
        rcases List.mem_cons.1 harrow with rfl | harrow
        · cases hl
        · cases List.mem_singleton.1 harrow
    · cases maybe with
      | true => cases List.mem_singleton.1 harrow
      | false => cases harrow
    · exact hof.arrow_not_mem harrow

theorem VariantsTree.Unambiguous.arrow_not_mem {vs : VariantsTree} (h : vs.Unambiguous) :
    .arrow ∉ vs.tokens := by
  cases vs with
  | last v => exact VariantTree.Unambiguous.arrow_not_mem h
  | more v rest => simp [VariantsTree.tokens, h.1.arrow_not_mem, h.2.arrow_not_mem]

theorem VariantTree.Unambiguous.arrow_not_mem {v : VariantTree} (h : v.Unambiguous) :
    .arrow ∉ v.tokens := by
  cases v with
  | bare name => simp [VariantTree.tokens, name.token_ne_arrow]
  | shaped name s =>
    simp [VariantTree.tokens, name.token_ne_arrow, ShapeTree.Unambiguous.arrow_not_mem h]
  | anonymous s => exact ShapeTree.Unambiguous.arrow_not_mem h

theorem ShapeTree.Unambiguous.arrow_not_mem {s : ShapeTree} (h : s.Unambiguous) :
    .arrow ∉ s.tokens := by
  cases s with
  | array of => simp [ShapeTree.tokens, ExprTree.Unambiguous.arrow_not_mem h]
  | tuple of => simp [ShapeTree.tokens, SlotsTree.Unambiguous.arrow_not_mem h]
  | fields of => simp [ShapeTree.tokens, FieldsTree.Unambiguous.arrow_not_mem h]

theorem SlotsTree.Unambiguous.arrow_not_mem {slots : SlotsTree} (h : slots.Unambiguous) :
    .arrow ∉ slots.tokens := by
  cases slots with
  | last of comma =>
    simp [SlotsTree.tokens, ExprTree.Unambiguous.arrow_not_mem h, arrow_not_mem_commaTokens]
  | more of comma rest =>
    simp [SlotsTree.tokens, h.1.arrow_not_mem, arrow_not_mem_commaTokens, h.2.2.arrow_not_mem]

theorem FieldsTree.Unambiguous.arrow_not_mem {fields : FieldsTree} (h : fields.Unambiguous) :
    .arrow ∉ fields.tokens := by
  cases fields with
  | last key of comma =>
    simp [FieldsTree.tokens, ExprTree.Unambiguous.arrow_not_mem h, arrow_not_mem_commaTokens]
  | ellipsis => simp [FieldsTree.tokens]
  | more key of comma rest =>
    simp [FieldsTree.tokens, h.1.arrow_not_mem, arrow_not_mem_commaTokens, h.2.arrow_not_mem]

end

/-! ## Unambiguous trees are clear -/

/-- `next` does not carry a tree on: not with a further variant, not with a shape for a name at the
    end, and not by making a single name a label. -/
structure ExprTree.EndsBefore (tree : ExprTree) (next : Option Token) : Prop where
  not_pipe : next ≠ some .pipe
  not_opens : tree.endsBare = true → ∀ t ∈ next, t.opens = false
  not_colon : ∀ name : Name, tree.tokens = [name.token] → next ≠ some .doubleColon

/-- A token that ends a union wherever it stands behind one. -/
def Token.ends (t : Token) : Bool :=
  t != .pipe && t != .doubleColon && !t.opens

theorem ExprTree.endsBefore_of_ends (tree : ExprTree) {t : Token} (ht : t.ends = true) :
    tree.EndsBefore (some t) := by
  simp only [Token.ends, Bool.and_eq_true, bne_iff_ne, Bool.not_eq_true'] at ht
  obtain ⟨⟨hpipe, hcolon⟩, hopens⟩ := ht
  exact ⟨by simpa using hpipe, by simpa using fun _ => hopens, by simpa using fun _ _ => hcolon⟩

/-- A slot ends where the next one begins, unless that one begins with a bracket and this one with
    a name that would take it. -/
theorem ExprTree.endsBefore_startUnion {tree : ExprTree} {ts : List Token} (hts : StartUnion ts)
    (hopens : tree.endsBare = true → Grammar.startsShape ts = false) :
    tree.EndsBefore ts.head? := by
  refine ⟨hts.head?_ne rfl, fun hbare t ht => ?_, fun _ _ => hts.head?_ne rfl⟩
  obtain ⟨after, rfl⟩ := List.head?_eq_some_iff.1 ht
  exact hopens hbare

theorem ExprTree.endsBefore_fields (tree : ExprTree) (fields : FieldsTree) :
    tree.EndsBefore fields.tokens.head? := by
  cases fields with
  | last key of comma => exact tree.endsBefore_of_ends rfl
  | ellipsis => exact tree.endsBefore_of_ends rfl
  | more key of comma rest => exact tree.endsBefore_of_ends rfl

mutual

theorem ExprTree.Unambiguous.clear {tree : ExprTree} (h : tree.Unambiguous) {next : Option Token}
    (hnext : tree.EndsBefore next) : tree.Clear next := by
  cases tree with
  | mk label maybe of =>
    obtain ⟨hlabel, hmaybe, hof⟩ := h
    refine ⟨?_, hmaybe, hof.clear hnext.not_pipe hnext.not_opens⟩
    rintro rfl
    -- behind `Maybe` a variant begins; without it the second token is one of the first variant or
    -- stands behind a single name
    cases maybe with
    | true =>
      have hfirst := of.startUnion_tokens.append next.toList
      simpa [maybeTokens, List.head?_eq_getElem?] using hfirst.head?_ne (t := .doubleColon) rfl
    | false =>
      refine hof.second_ne fun name hname => ?_
      have hcolon := hnext.not_colon name hname
      cases next with
      | none => simp
      | some t => simpa using hcolon

theorem VariantsTree.Unambiguous.clear {vs : VariantsTree} (h : vs.Unambiguous)
    {next : Option Token} (hpipe : next ≠ some .pipe)
    (hopens : vs.endsBare = true → ∀ t ∈ next, t.opens = false) : vs.Clear next := by
  cases vs with
  | last v => exact ⟨hpipe, VariantTree.Unambiguous.clear h hopens⟩
  | more v rest => exact ⟨h.1.clear fun _ t ht => by cases ht; rfl, h.2.clear hpipe hopens⟩

theorem VariantTree.Unambiguous.clear {v : VariantTree} (h : v.Unambiguous) {next : Option Token}
    (hopens : v.isBare = true → ∀ t ∈ next, t.opens = false) : v.Clear next := by
  cases v with
  | bare name => exact hopens rfl
  | shaped name s => exact ShapeTree.Unambiguous.clear h
  | anonymous s => exact ShapeTree.Unambiguous.clear h

theorem ShapeTree.Unambiguous.clear {s : ShapeTree} (h : s.Unambiguous) : s.Clear := by
  cases s with
  | array of =>
    have hof : of.Unambiguous := h
    exact ⟨hof.startUnion_tokens.head?_ne rfl, hof.clear (of.endsBefore_of_ends rfl)⟩
  | tuple of =>
    have hof : of.Unambiguous := h
    exact ⟨hof.startUnion_tokens.head?_ne rfl, hof.clear⟩
  | fields of => exact FieldsTree.Unambiguous.clear h

theorem SlotsTree.Unambiguous.clear {slots : SlotsTree} (h : slots.Unambiguous) : slots.Clear := by
  cases slots with
  | last of comma =>
    have hof : of.Unambiguous := h
    cases comma with
    | true => exact hof.clear (of.endsBefore_of_ends rfl)
    | false => exact hof.clear (of.endsBefore_of_ends rfl)
  | more of comma rest =>
    obtain ⟨hof, hbracket, hrest⟩ := h
    have hfirst := hrest.startUnion_tokens
    refine ⟨?_, fun _ => hfirst.head?_ne rfl, hfirst.head?_ne rfl, hrest.clear⟩
    cases comma with
    | true => exact hof.clear (of.endsBefore_of_ends rfl)
    | false => exact hof.clear (ExprTree.endsBefore_startUnion hfirst (hbracket rfl))

theorem FieldsTree.Unambiguous.clear {fields : FieldsTree} (h : fields.Unambiguous) :
    fields.Clear := by
  cases fields with
  | ellipsis => trivial
  | last key of comma =>
    have hof : of.Unambiguous := h
    cases comma with
    | true => exact hof.clear (of.endsBefore_of_ends rfl)
    | false => exact hof.clear (of.endsBefore_of_ends rfl)
  | more key of comma rest =>
    obtain ⟨hof, hrest⟩ := h
    refine ⟨?_, hrest.clear⟩
    cases comma with
    | true => exact hof.clear (of.endsBefore_of_ends rfl)
    | false => exact hof.clear (of.endsBefore_fields rest)

end

end TypeNotation
