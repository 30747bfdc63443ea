import TypeNotation.Proofs.Grammar.Clear
import TypeNotation.Proofs.Grammar.Written
import TypeNotation.Proofs.TypeExpr.Printable

set_option autoImplicit false

/-! # What is read can be written again

A clear tree in which every identifier is a word says something that can be written: the grammar
asks for a variant, a slot, or a field wherever a type expression without one would have no
specification. -/

namespace TypeNotation

/-- A token whose text is a word if it is an identifier. -/
def Token.Legible : Token → Prop
  | identifier text => IsWord text
  | _ => True

theorem legible_of_mem_tokensIn {cs : List Char} {t : Token} (h : t ∈ tokensIn cs) : t.Legible := by
  cases t with
  | identifier text => exact isWord_of_mem_tokensIn h
  | _ => trivial

theorem Name.isName_text {name : Name} (h : name.token.Legible) : IsName name.text := by
  cases name with
  | star => exact Or.inl rfl
  | word text => exact Or.inr h

/-! ## `Maybe` is not written as a first name -/

theorem Name.text_eq_iff {name : Name} : name.text = "Maybe" ↔ name.token = maybeToken := by
  cases name with
  | star => decide
  | word text => simp [Name.text, Name.token, Token.text, maybeToken]

theorem VariantTree.name_written_eq_iff {v : VariantTree} :
    v.written.name = some "Maybe" ↔ v.tokens.head? = some maybeToken := by
  cases v with
  | bare name => exact Option.some_inj.trans (Name.text_eq_iff.trans Option.some_inj.symm)
  | shaped name s => exact Option.some_inj.trans (Name.text_eq_iff.trans Option.some_inj.symm)
  | anonymous s =>
    obtain ⟨t, ts, hts, hopens⟩ := s.exists_tokens_eq
    refine ⟨nofun, fun h => ?_⟩
    rw [VariantTree.tokens, hts] at h
    cases h
    cases hopens

theorem VariantsTree.startsPlain_written_iff {vs : VariantsTree} :
    TypeExpr.StartsPlain vs.written ↔ vs.tokens.head? ≠ some maybeToken := by
  cases vs with
  | last v =>
    rw [VariantsTree.written, TypeExpr.startsPlain_cons, VariantsTree.tokens, Ne, Ne,
      VariantTree.name_written_eq_iff]
  | more v rest =>
    rw [VariantsTree.written, TypeExpr.startsPlain_cons, VariantsTree.tokens,
      List.head?_append_of_ne_nil _ v.tokens_ne_nil, Ne, Ne, VariantTree.name_written_eq_iff]

theorem printableVariants_maybeVariants (maybe : Bool) :
    PrintableVariants (maybeVariants maybe) := by
  cases maybe with
  | true => exact ⟨Or.inr (by decide), Or.inr (by decide), trivial⟩
  | false => trivial

/-! ## Every part can be written -/

mutual

theorem ExprTree.Clear.printable {tree : ExprTree} {next : Option Token} (h : tree.Clear next)
    (hwords : ∀ t ∈ tree.tokens, t.Legible) : TypeExpr.Printable tree.written := by
  cases tree with
  | mk label maybe of =>
    obtain ⟨-, hmaybe, hof⟩ := h
    rw [ExprTree.tokens, List.forall_mem_append] at hwords
    have hvariants := hof.printable hwords.2
    cases maybe with
    | true =>
      refine ⟨TypeExpr.startsPlain_cons.2 (by decide), ?_⟩
      rw [ExprTree.written, printableVariants_iff, List.forall_mem_append, ← printableVariants_iff,
        ← printableVariants_iff]
      exact ⟨printableVariants_maybeVariants true, hvariants⟩
    | false => exact ⟨VariantsTree.startsPlain_written_iff.2 (hmaybe rfl), hvariants⟩

theorem VariantsTree.Clear.printable {vs : VariantsTree} {next : Option Token}
    (h : vs.Clear next) (hwords : ∀ t ∈ vs.tokens, t.Legible) : PrintableVariants vs.written := by
  cases vs with
  | last v => exact ⟨h.2.printable hwords, trivial⟩
  | more v rest =>
    rw [VariantsTree.tokens, List.forall_mem_append, List.forall_mem_cons] at hwords
    exact ⟨h.1.printable hwords.1, h.2.printable hwords.2.2⟩

theorem VariantTree.Clear.printable {v : VariantTree} {next : Option Token} (h : v.Clear next)
    (hwords : ∀ t ∈ v.tokens, t.Legible) : v.written.Printable := by
  cases v with
  | bare name => exact Name.isName_text (hwords _ (List.mem_singleton_self _))
  | shaped name s =>
    rw [VariantTree.tokens, List.forall_mem_cons] at hwords
    exact ⟨Name.isName_text hwords.1, ShapeTree.Clear.printable h hwords.2⟩
  | anonymous s => exact ShapeTree.Clear.printable (s := s) h hwords

theorem ShapeTree.Clear.printable {s : ShapeTree} (h : s.Clear)
    (hwords : ∀ t ∈ s.tokens, t.Legible) : s.written.Printable := by
  cases s with
  | array of =>
    rw [ShapeTree.tokens, List.cons_append, List.forall_mem_cons, List.forall_mem_append] at hwords
    exact h.2.printable hwords.2.1
  | tuple of =>
    rw [ShapeTree.tokens, List.cons_append, List.forall_mem_cons, List.forall_mem_append] at hwords
    exact ⟨by cases of <;> simp [SlotsTree.written], h.2.printable hwords.2.1⟩
  | fields of =>
    rw [ShapeTree.tokens, List.cons_append, List.forall_mem_cons, List.forall_mem_append] at hwords
    have hof := FieldsTree.Clear.printable h hwords.2.1
    refine ⟨fun hsubset hnil => ?_, ?_, ?_⟩
    · have hkeys : ∀ k, k ∉ of.written.map Field.key := by
        intro k hk
        rw [← Field.mem_keys_gather, Field.gather_eq_merged, hnil] at hk
        cases hk
      -- only `...` leaves a record without fields, and it leaves room for others
      cases of with
      | last key of comma => exact hkeys key List.mem_cons_self
      | ellipsis => cases hsubset
      | more key of comma rest => exact hkeys key List.mem_cons_self
    · rw [← Field.gather_eq_merged]
      exact Field.nodup_keys_gather of.written
    · rw [printableFields_iff] at hof ⊢
      intro f hf
      rw [← Field.gather_eq_merged] at hf
      exact hof f (Field.mem_of_mem_gather hf)

theorem SlotsTree.Clear.printable {slots : SlotsTree} (h : slots.Clear)
    (hwords : ∀ t ∈ slots.tokens, t.Legible) : PrintableSlots slots.written := by
  cases slots with
  | last of comma =>
    rw [SlotsTree.tokens, List.forall_mem_append] at hwords
    exact ⟨ExprTree.Clear.printable h hwords.1, trivial⟩
  | more of comma rest =>
    rw [SlotsTree.tokens, List.forall_mem_append, List.forall_mem_append] at hwords
    exact ⟨h.1.printable hwords.1.1, h.2.2.2.printable hwords.2⟩

theorem FieldsTree.Clear.printable {fields : FieldsTree} (h : fields.Clear)
    (hwords : ∀ t ∈ fields.tokens, t.Legible) : PrintableFields fields.written := by
  cases fields with
  | last key of comma =>
    rw [FieldsTree.tokens, List.cons_append, List.cons_append, List.forall_mem_cons,
      List.forall_mem_cons, List.forall_mem_append] at hwords
    exact ⟨⟨hwords.1, ExprTree.Clear.printable h hwords.2.2.1⟩, trivial⟩
  | ellipsis => trivial
  | more key of comma rest =>
    rw [FieldsTree.tokens, List.cons_append, List.cons_append, List.cons_append, List.cons_append,
      List.forall_mem_cons, List.forall_mem_cons, List.forall_mem_append,
      List.forall_mem_append] at hwords
    exact ⟨⟨hwords.1, h.1.printable hwords.2.2.1.1⟩, h.2.printable hwords.2.2.2⟩

end

/-! ## What is written is no deeper than the tree -/

theorem nesting_maybeVariants (maybe : Bool) : TypeExpr.nesting (maybeVariants maybe) = 0 := by
  cases maybe <;> rfl

mutual

theorem ExprTree.nesting_written_le (tree : ExprTree) :
    TypeExpr.nesting tree.written ≤ tree.nesting := by
  cases tree with
  | mk label maybe of =>
    rw [ExprTree.written, TypeExpr.nesting_append, nesting_maybeVariants, Nat.zero_max]
    exact of.nesting_written_le

theorem VariantsTree.nesting_written_le (vs : VariantsTree) :
    TypeExpr.nesting vs.written ≤ vs.nesting := by
  cases vs with
  | last v =>
    rw [VariantsTree.written, TypeExpr.nesting, TypeExpr.nesting, Nat.max_zero]
    exact v.nesting_written_le
  | more v rest =>
    have hv := v.nesting_written_le
    have hrest := rest.nesting_written_le
    rw [VariantsTree.written, TypeExpr.nesting, VariantsTree.nesting]
    omega

theorem VariantTree.nesting_written_le (v : VariantTree) : v.written.nesting ≤ v.nesting := by
  cases v with
  | bare name => exact Nat.le_refl _
  | shaped name s => exact s.nesting_written_le
  | anonymous s => exact s.nesting_written_le

theorem ShapeTree.nesting_written_le (s : ShapeTree) : s.written.nesting ≤ s.nesting := by
  cases s with
  | array of => exact Nat.succ_le_succ of.nesting_written_le
  | tuple of => exact Nat.succ_le_succ of.nesting_written_le
  | fields of =>
    refine Nat.succ_le_succ (Nat.le_trans ?_ of.nesting_written_le)
    rw [← Field.gather_eq_merged, fieldsNesting_le_iff]
    exact fun f hf => fieldsNesting_le_iff.1 (Nat.le_refl _) f (Field.mem_of_mem_gather hf)

theorem SlotsTree.nesting_written_le (slots : SlotsTree) :
    slotsNesting slots.written ≤ slots.nesting := by
  cases slots with
  | last of comma =>
    rw [SlotsTree.written, slotsNesting, slotsNesting, Nat.max_zero]
    exact of.nesting_written_le
  | more of comma rest =>
    have hof := of.nesting_written_le
    have hrest := rest.nesting_written_le
    rw [SlotsTree.written, slotsNesting, SlotsTree.nesting]
    omega

theorem FieldsTree.nesting_written_le (fields : FieldsTree) :
    fieldsNesting fields.written ≤ fields.nesting := by
  cases fields with
  | last key of comma =>
    rw [FieldsTree.written, fieldsNesting, fieldsNesting, Nat.max_zero]
    exact of.nesting_written_le
  | ellipsis => exact Nat.le_refl _
  | more key of comma rest =>
    have hof := of.nesting_written_le
    have hrest := rest.nesting_written_le
    rw [FieldsTree.written, fieldsNesting, FieldsTree.nesting, Field.nesting]
    omega

end

end TypeNotation
