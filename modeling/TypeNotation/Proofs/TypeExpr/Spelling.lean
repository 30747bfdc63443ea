import TypeNotation.Proofs.Grammar.Printable
import TypeNotation.Proofs.Grammar.Unambiguous
import TypeNotation.TypeExpr.Text

set_option autoImplicit false

/-! # The canonical text is cut into the tokens of a tree

For everything that can be written there is an unambiguous tree that says just that, and whose
tokens the canonical text is cut into: no two pieces of the text run together, because what stands
behind a word is always a sign or a blank. -/

namespace TypeNotation

theorem endsWord_cons {c : Char} (hc : Token.isWordChar c = false) (cs : List Char) :
    EndsWord (c :: cs) := by
  rintro _ ⟨⟩
  exact hc

theorem Shape.endsWord_chars (s : Shape) : EndsWord s.chars := by
  cases s with
  | array of => exact endsWord_cons rfl _
  | tuple of => exact endsWord_cons rfl _
  | fields of subset => exact endsWord_cons rfl _

theorem separated_cons (separator : String) (part : List Char) {parts : List (List Char)}
    (h : parts ≠ []) :
    separated separator (part :: parts)
      = part ++ (separator.toList ++ separated separator parts) := by
  rw [separated, List.intercalate_cons_of_ne_nil h, List.append_assoc, separated]

section Cuts

variable {cs cs' : List Char} {ts ts' : List Token}

theorem Cuts.pipe (h : Cuts cs ts) (h' : Cuts cs' ts') :
    Cuts (cs ++ (" | ".toList ++ cs')) (ts ++ .pipe :: ts') :=
  h.append (((h'.blank rfl).sign rfl fun _ => rfl).blank rfl) (endsWord_cons rfl _)

theorem Cuts.comma (h : Cuts cs ts) (h' : Cuts cs' ts') :
    Cuts (cs ++ (", ".toList ++ cs')) (ts ++ commaTokens true ++ ts') := by
  rw [List.append_assoc]
  exact h.append ((h'.blank rfl).sign rfl fun _ => rfl) (endsWord_cons rfl _)

/-- A text between two signs. -/
theorem Cuts.between {c d : Char} {t u : Token} (h : Cuts cs ts) (hc : isBlank c = false)
    (hfirst : ∀ rest, Token.first? (c :: rest) = some (t, rest)) (hd : isBlank d = false)
    (hlast : ∀ rest, Token.first? (d :: rest) = some (u, rest))
    (hends : Token.isWordChar d = false) : Cuts (c :: cs ++ [d]) (t :: ts ++ [u]) :=
  (h.append (cuts_nil.sign hd hlast) (endsWord_cons hends [])).sign hc hfirst

end Cuts

theorem IsName.exists_name {text : String} (h : IsName text) :
    ∃ name : Name, name.text = text ∧ Cuts text.toList [name.token] := by
  rcases h with rfl | h
  · exact ⟨.star, rfl, cuts_nil.sign rfl fun _ => rfl⟩
  · exact ⟨.word text, rfl, cuts_word h⟩

/-- A union without a label is a tree of its variants. -/
theorem VariantsTree.unambiguous_expr {vs : VariantsTree} (h : vs.Unambiguous)
    (hplain : TypeExpr.StartsPlain vs.written) : (ExprTree.mk none false vs).Unambiguous :=
  ⟨nofun, fun _ => VariantsTree.startsPlain_written_iff.1 hplain, h⟩

mutual

theorem Variant.Printable.exists_tree {v : Variant} (h : v.Printable) :
    ∃ tree : VariantTree, tree.Unambiguous ∧ tree.written = v ∧ tree.nesting = v.nesting ∧
      Cuts v.chars tree.tokens := by
  match v with
  | .mk none none => exact h.elim
  | .mk (some name) none =>
    obtain ⟨n, rfl, hcuts⟩ := IsName.exists_name h
    exact ⟨.bare n, trivial, rfl, rfl, hcuts⟩
  | .mk none (some shape) =>
    obtain ⟨s, hs, hwritten, hnesting, hcuts⟩ := Shape.Printable.exists_tree (s := shape) h
    refine ⟨.anonymous s, hs, ?_, hnesting, hcuts⟩
    rw [VariantTree.written, hwritten, Variant.anonymous]
  | .mk (some name) (some shape) =>
    obtain ⟨n, rfl, hname⟩ := IsName.exists_name h.1
    obtain ⟨s, hs, hwritten, hnesting, hcuts⟩ := h.2.exists_tree
    exact ⟨.shaped n s, hs, by rw [VariantTree.written, hwritten], hnesting,
      hname.append hcuts shape.endsWord_chars⟩

theorem Shape.Printable.exists_tree {s : Shape} (h : s.Printable) :
    ∃ tree : ShapeTree, tree.Unambiguous ∧ tree.written = s ∧ tree.nesting = s.nesting ∧
      Cuts s.chars tree.tokens := by
  cases s with
  | array of =>
    obtain ⟨vs, hvs, rfl, hnesting, hcuts⟩ := h.2.exists_tree h.1.ne_nil
    exact ⟨.array (.mk none false vs), vs.unambiguous_expr hvs h.1, rfl,
      congrArg (· + 1) hnesting, hcuts.between rfl (fun _ => rfl) rfl (fun _ => rfl) rfl⟩
  | tuple of =>
    obtain ⟨slots, hslots, rfl, hnesting, hcuts⟩ := h.2.exists_tree h.1
    exact ⟨.tuple slots, hslots, rfl, congrArg (· + 1) hnesting,
      hcuts.between rfl (fun _ => rfl) rfl (fun _ => rfl) rfl⟩
  | fields of subset =>
    obtain ⟨hne, hnodup, hof⟩ := h
    obtain ⟨fields, hfields, rfl, rfl, hnesting, hcuts⟩ := hof.exists_tree subset hne
    refine ⟨.fields fields, hfields, ?_, congrArg (· + 1) hnesting,
      hcuts.between rfl (fun _ => rfl) rfl (fun _ => rfl) rfl⟩
    rw [ShapeTree.written, ← Field.gather_eq_merged, Field.gather_eq_self hnodup]

theorem PrintableVariants.exists_tree {of : List Variant} (h : PrintableVariants of)
    (hne : of ≠ []) :
    ∃ vs : VariantsTree, vs.Unambiguous ∧ vs.written = of ∧ vs.nesting = TypeExpr.nesting of ∧
      Cuts (TypeExpr.chars of) vs.tokens := by
  match of with
  | [] => exact absurd rfl hne
  | [v] =>
    obtain ⟨tree, htree, rfl, hnesting, hcuts⟩ := h.1.exists_tree
    refine ⟨.last tree, htree, rfl, ?_, ?_⟩
    · rw [VariantsTree.nesting, hnesting, TypeExpr.nesting, TypeExpr.nesting, Nat.max_zero]
    · rw [TypeExpr.chars, variantTexts, variantTexts, separated, List.intercalate_singleton]
      exact hcuts
  | v :: u :: rest =>
    obtain ⟨tree, htree, rfl, hnesting, hcuts⟩ := h.1.exists_tree
    obtain ⟨vs, hvs, hwritten, hnesting', hcuts'⟩ := h.2.exists_tree (List.cons_ne_nil u rest)
    refine ⟨.more tree vs, ⟨htree, hvs⟩, ?_, ?_, ?_⟩
    · rw [VariantsTree.written, hwritten]
    · rw [VariantsTree.nesting, hnesting, hnesting', TypeExpr.nesting.eq_2 tree.written]
    · have htexts : variantTexts (u :: rest) ≠ [] := List.cons_ne_nil _ _
      rw [TypeExpr.chars, variantTexts, separated_cons _ _ htexts]
      exact hcuts.pipe hcuts'

theorem PrintableSlots.exists_tree {of : List (List Variant)} (h : PrintableSlots of)
    (hne : of ≠ []) :
    ∃ slots : SlotsTree, slots.Unambiguous ∧ slots.written = of ∧
      slots.nesting = slotsNesting of ∧ Cuts (separated ", " (slotTexts of)) slots.tokens := by
  match of with
  | [] => exact absurd rfl hne
  | [of] =>
    obtain ⟨vs, hvs, rfl, hnesting, hcuts⟩ := h.1.2.exists_tree h.1.1.ne_nil
    refine ⟨.last (.mk none false vs) false, vs.unambiguous_expr hvs h.1.1, rfl, ?_, ?_⟩
    · rw [SlotsTree.nesting, ExprTree.nesting, hnesting, slotsNesting, slotsNesting, Nat.max_zero]
    · rw [slotTexts, slotTexts, separated, List.intercalate_singleton, SlotsTree.tokens]
      exact (List.append_nil vs.tokens).symm ▸ hcuts
  | of :: of' :: rest =>
    obtain ⟨vs, hvs, rfl, hnesting, hcuts⟩ := h.1.2.exists_tree h.1.1.ne_nil
    obtain ⟨slots, hslots, hwritten, hnesting', hcuts'⟩ :=
      h.2.exists_tree (List.cons_ne_nil of' rest)
    refine ⟨.more (.mk none false vs) true slots,
      ⟨vs.unambiguous_expr hvs h.1.1, nofun, hslots⟩, ?_, ?_, ?_⟩
    · rw [SlotsTree.written, hwritten]
      rfl
    · rw [SlotsTree.nesting, ExprTree.nesting, hnesting, hnesting', slotsNesting.eq_2 vs.written]
    · have htexts : slotTexts (of' :: rest) ≠ [] := List.cons_ne_nil _ _
      rw [slotTexts, separated_cons _ _ htexts]
      exact hcuts.comma hcuts'

theorem PrintableFields.exists_tree {fs : List Field} (h : PrintableFields fs) (subset : Bool)
    (hne : subset = false → fs ≠ []) :
    ∃ fields : FieldsTree, fields.Unambiguous ∧ fields.written = fs ∧ fields.subset = subset ∧
      fields.nesting = fieldsNesting fs ∧
      Cuts (separated ", " (fieldTexts fs ++ if subset then [['.', '.', '.']] else []))
        fields.tokens := by
  match fs, subset with
  | [], false => exact absurd rfl (hne rfl)
  | [], true => exact ⟨.ellipsis, trivial, rfl, rfl, rfl, cuts_ellipsis⟩
  | .mk key of :: rest, subset =>
    obtain ⟨⟨hkey, hplain, hof⟩, hrest⟩ := h
    obtain ⟨vs, hvs, rfl, hnesting, hcuts⟩ := hof.exists_tree hplain.ne_nil
    have hfield : Cuts (Field.mk key vs.written).chars
        (.identifier key :: .colon :: (ExprTree.mk none false vs).tokens) := by
      rw [Field.chars, List.append_assoc]
      exact (cuts_word hkey).append hcuts.colon (endsWord_cons rfl _)
    -- a comma stands behind a field unless neither a further one nor `...` comes
    by_cases hlast : subset = false ∧ rest = []
    · obtain ⟨rfl, rfl⟩ := hlast
      refine ⟨.last key (.mk none false vs) false, vs.unambiguous_expr hvs hplain, rfl, rfl, ?_, ?_⟩
      · rw [FieldsTree.nesting, ExprTree.nesting, hnesting, fieldsNesting, fieldsNesting,
          Nat.max_zero, Field.nesting]
      · rw [fieldTexts, fieldTexts, if_neg Bool.false_ne_true, List.append_nil, separated,
          List.intercalate_singleton, FieldsTree.tokens, commaTokens, if_neg Bool.false_ne_true,
          List.append_nil]
        exact hfield
    · have hmore : subset = false → rest ≠ [] := fun hsubset hnil => hlast ⟨hsubset, hnil⟩
      obtain ⟨fields, hfields, hwritten, hsubset, hnesting', hcuts'⟩ :=
        hrest.exists_tree subset hmore
      refine ⟨.more key (.mk none false vs) true fields,
        ⟨vs.unambiguous_expr hvs hplain, hfields⟩, ?_, hsubset, ?_, ?_⟩
      · rw [FieldsTree.written, hwritten]
        rfl
      · rw [FieldsTree.nesting, ExprTree.nesting, hnesting, hnesting', fieldsNesting, Field.nesting]
      · have htexts : fieldTexts rest ++ (if subset then [['.', '.', '.']] else []) ≠ [] := by
          cases subset with
          | true => exact List.append_ne_nil_of_right_ne_nil _ (List.cons_ne_nil _ _)
          | false =>
            cases rest with
            | nil => exact absurd rfl (hmore rfl)
            | cons f rest => exact List.cons_ne_nil _ _
        rw [fieldTexts, List.cons_append, separated_cons _ _ htexts]
        exact hfield.comma hcuts'

end

/-- The canonical text of what can be written is cut into the tokens of a tree that says it. -/
theorem TypeExpr.Printable.exists_tree {of : TypeExpr} (h : Printable of) :
    ∃ tree : ExprTree, tree.Unambiguous ∧ tree.written = of ∧ tree.nesting = nesting of ∧
      tokensIn (text of).toList = tree.tokens := by
  obtain ⟨vs, hvs, rfl, hnesting, hcuts⟩ := h.2.exists_tree h.1.ne_nil
  refine ⟨.mk none false vs, vs.unambiguous_expr hvs h.1, rfl, hnesting, ?_⟩
  rw [text, String.toList_ofList, hcuts.tokensIn_eq]
  rfl

end TypeNotation
