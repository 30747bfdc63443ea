import TypeNotation.Grammar.Read

set_option autoImplicit false

/-! # Which trees can be read back

Not every tree is read back from its own tokens: a name swallows a bracket behind it, a first token
is a label when `::` stands second, and the word `Maybe` is never a name at the beginning of a
union. `Clear next` says that none of this spoils a tree that the token `next` follows. How deep
shapes lie inside one another is a matter of its own, counted by `nesting`. -/

namespace TypeNotation

/-! ## How deep shapes are nested -/

mutual

/-- The number of shapes of a tree that are open at once where most are. -/
def ExprTree.nesting : ExprTree → Nat
  | .mk _ _ of => of.nesting

/-- The greatest `nesting` of a variant. -/
def VariantsTree.nesting : VariantsTree → Nat
  | .last v => v.nesting
  | .more v rest => max v.nesting rest.nesting

/-- The `nesting` of the shape of a variant, and `0` of a bare name. -/
def VariantTree.nesting : VariantTree → Nat
  | .bare _ => 0
  | .shaped _ shape => shape.nesting
  | .anonymous shape => shape.nesting

/-- One more than the greatest `nesting` inside the shape. -/
def ShapeTree.nesting : ShapeTree → Nat
  | .array of => of.nesting + 1
  | .tuple of => of.nesting + 1
  | .fields of => of.nesting + 1

/-- The greatest `nesting` of a slot. -/
def SlotsTree.nesting : SlotsTree → Nat
  | .last of _ => of.nesting
  | .more of _ rest => max of.nesting rest.nesting

/-- The greatest `nesting` of a field. -/
def FieldsTree.nesting : FieldsTree → Nat
  | .last _ of _ => of.nesting
  | .ellipsis => 0
  | .more _ of _ rest => max of.nesting rest.nesting

end

/-! ## Nothing is taken for something else -/

mutual

/-- A union without a label does not look like one that has a label, and one without `Maybe` does
    not begin with that word. -/
def ExprTree.Clear (next : Option Token) : ExprTree → Prop
  | .mk label maybe of =>
    (label = none → (maybeTokens maybe ++ of.tokens ++ next.toList)[1]? ≠ some .doubleColon) ∧
      (maybe = false → of.tokens.head? ≠ some maybeToken) ∧ of.Clear next

/-- The last variant is not followed by a further `|`. -/
def VariantsTree.Clear (next : Option Token) : VariantsTree → Prop
  | .last v => next ≠ some .pipe ∧ v.Clear next
  | .more v rest => v.Clear (some .pipe) ∧ rest.Clear next

/-- A bare name is not followed by a bracket. -/
def VariantTree.Clear (next : Option Token) : VariantTree → Prop
  | .bare _ => ∀ t ∈ next, t.opens = false
  | .shaped _ shape => shape.Clear
  | .anonymous shape => shape.Clear

/-- What is in brackets does not begin with the closing one, as a label might. -/
def ShapeTree.Clear : ShapeTree → Prop
  | .array of => of.tokens.head? ≠ some .rightBracket ∧ of.Clear (some .rightBracket)
  | .tuple of => of.tokens.head? ≠ some .rightParen ∧ of.Clear
  | .fields of => of.Clear

/-- A slot behind another one does not begin with the closing parenthesis, nor with a comma unless
    there is one before it. -/
def SlotsTree.Clear : SlotsTree → Prop
  | .last of comma => of.Clear (commaTokens comma ++ [Token.rightParen]).head?
  | .more of comma rest =>
    of.Clear (commaTokens comma ++ rest.tokens).head? ∧
      (comma = false → rest.tokens.head? ≠ some .comma) ∧
      rest.tokens.head? ≠ some .rightParen ∧ rest.Clear

/-- The union of each field is clear in front of its comma, the next field or the closing brace. -/
def FieldsTree.Clear : FieldsTree → Prop
  | .last _ of comma => of.Clear (commaTokens comma ++ [Token.rightBrace]).head?
  | .ellipsis => True
  | .more _ of comma rest => of.Clear (commaTokens comma ++ rest.tokens).head? ∧ rest.Clear

end

/-! ## Room for shapes -/

/-- What is read where `room` shapes may still be opened inside one another. -/
def ExprTree.Fits (room : Nat) (next : Option Token) (tree : ExprTree) : Prop :=
  tree.Clear next ∧ tree.nesting ≤ room

/-- Variants that are clear in front of `next` and open no more than `room` shapes. -/
def VariantsTree.Fits (room : Nat) (next : Option Token) (vs : VariantsTree) : Prop :=
  vs.Clear next ∧ vs.nesting ≤ room

/-- A variant that is clear in front of `next` and opens no more than `room` shapes. -/
def VariantTree.Fits (room : Nat) (next : Option Token) (v : VariantTree) : Prop :=
  v.Clear next ∧ v.nesting ≤ room

/-- A shape that is clear and opens no more than `room` shapes, itself included. What follows it
    does not matter. -/
def ShapeTree.Fits (room : Nat) (_ : Option Token) (s : ShapeTree) : Prop :=
  s.Clear ∧ s.nesting ≤ room

/-! ## Every tree begins with a token -/

theorem ShapeTree.exists_tokens_eq (s : ShapeTree) :
    ∃ t ts, s.tokens = t :: ts ∧ t.opens = true := by
  cases s with
  | array of => exact ⟨_, _, ShapeTree.tokens.eq_1 of, rfl⟩
  | tuple of => exact ⟨_, _, ShapeTree.tokens.eq_2 of, rfl⟩
  | fields of => exact ⟨_, _, ShapeTree.tokens.eq_3 of, rfl⟩

theorem VariantTree.tokens_ne_nil (v : VariantTree) : v.tokens ≠ [] := by
  cases v with
  | bare name => simp [VariantTree.tokens]
  | shaped name s => simp [VariantTree.tokens]
  | anonymous s =>
    obtain ⟨t, ts, h, -⟩ := s.exists_tokens_eq
    simp [VariantTree.tokens, h]

theorem VariantsTree.tokens_ne_nil (vs : VariantsTree) : vs.tokens ≠ [] := by
  cases vs with
  | last v => simpa [VariantsTree.tokens] using v.tokens_ne_nil
  | more v rest => simp [VariantsTree.tokens]

theorem ExprTree.tokens_ne_nil (tree : ExprTree) : tree.tokens ≠ [] := by
  cases tree with
  | mk label maybe of => simp [ExprTree.tokens, of.tokens_ne_nil]

theorem SlotsTree.tokens_ne_nil (slots : SlotsTree) : slots.tokens ≠ [] := by
  cases slots with
  | last of comma => simp [SlotsTree.tokens, of.tokens_ne_nil]
  | more of comma rest => simp [SlotsTree.tokens, of.tokens_ne_nil]

theorem FieldsTree.tokens_ne_nil (fields : FieldsTree) : fields.tokens ≠ [] := by
  cases fields <;> simp [FieldsTree.tokens]

/-- Fields begin with a key or with `...`. -/
theorem FieldsTree.head?_tokens_ne (fields : FieldsTree) {t : Token} (hellipsis : t ≠ .ellipsis)
    (hkey : ∀ key, t ≠ .identifier key) : fields.tokens.head? ≠ some t := by
  cases fields with
  | last key of comma => simp [FieldsTree.tokens, (hkey key).symm]
  | ellipsis => simp [FieldsTree.tokens, hellipsis.symm]
  | more key of comma rest => simp [FieldsTree.tokens, (hkey key).symm]

end TypeNotation
