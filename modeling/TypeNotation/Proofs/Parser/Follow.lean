import TypeNotation.Proofs.Parser.Facing

set_option autoImplicit false

/-! # A walk follows the grammar

In front of some tokens a walk gives the value of the tree that the grammar reads off them, or the
fault where the grammar stops, and leaves the cursor in front of the tokens that are left. It always
ends, and always with as many shapes open as before. The rules of a walk follow the readers one by
one, each loop by induction over the list that its reader builds, and a shape by induction on the
room that is left for shapes. -/

namespace TypeNotation

open Grammar (TokenReader Stop startsShape takeLabel takeMaybe takeComma)

namespace Walk

variable {α β γ : Type} {ls : List Lexeme} {limit room depth : Nat} {ts : List Token}

/-! ## What a walk does with some tokens -/

/-- How a walk ends that does what the grammar says, with as many shapes open as at its start. -/
def outcome (ls : List Lexeme) (depth : Nat) (value : α → β) :
    Except Stop (α × List Token) → Option (Except Fault β × Cursor)
  | .ok (a, rest) => some (.ok (value a), .facing ls depth rest)
  | .error stop => stopped ls depth stop

/-- How a walk ends that goes on with `next` where the grammar does not stop. -/
def proceed (ls : List Lexeme) (depth : Nat) (next : α → Walk β) :
    Except Stop (α × List Token) → Option (Except Fault β × Cursor)
  | .ok (a, rest) => next a (.facing ls depth rest)
  | .error stop => stopped ls depth stop

theorem bind_outcome {w : Walk β} {c : Cursor} {value : α → β}
    {found : Except Stop (α × List Token)} (h : w c = outcome ls depth value found)
    (next : β → Walk γ) : (w >>= next) c = proceed ls depth (fun a => next (value a)) found := by
  cases found with
  | error stop => exact bind_stopped h next
  | ok first => exact bind_ok h next

/-- A walk does what a reader says, from wherever the cursor stands. -/
def Follows (w : Walk β) (depth : Nat) (r : TokenReader α) (value : α → β) : Prop :=
  ∀ (ls : List Lexeme) (ts : List Token), ts <:+ Parser.tokensOf ls →
    w (.facing ls depth ts) = outcome ls depth value (r.read ts)

theorem Follows.of_ok {w : Walk β} {r : TokenReader α} {value : α → β} {a : α} {rest : List Token}
    (hw : w.Follows depth r value) (h : ts <:+ Parser.tokensOf ls)
    (hread : r.read ts = .ok (a, rest)) :
    w (.facing ls depth ts) = some (.ok (value a), .facing ls depth rest) := by
  rw [hw ls ts h, hread]
  rfl

theorem Follows.of_error {w : Walk β} {r : TokenReader α} {value : α → β} {stop : Stop}
    (hw : w.Follows depth r value) (h : ts <:+ Parser.tokensOf ls)
    (hread : r.read ts = .error stop) : w (.facing ls depth ts) = stopped ls depth stop := by
  rw [hw ls ts h, hread]
  rfl

/-! ## Unions -/

/-- With some room for shapes, a walk does with a shape what its reader says, and passes nothing
    where none begins. -/
structure FollowsShape (inner : Walk (Option Shape)) (limit room depth : Nat) : Prop where
  starts : ∀ {ls : List Lexeme} {ts : List Token}, ts <:+ Parser.tokensOf ls →
    startsShape ts = true →
      inner (.facing ls depth ts)
        = outcome ls depth (fun s : ShapeTree => some s.value)
          ((Grammar.shapeAt limit room).read ts)
  absent : ∀ {ls : List Lexeme} {ts : List Token}, ts <:+ Parser.tokensOf ls →
    startsShape ts = false →
      inner (.facing ls depth ts) = some (.ok none, .facing ls depth ts)

variable {inner : Walk (Option Shape)}

theorem variant_follows (hinner : FollowsShape inner limit room depth) :
    (Rules.variant inner).Follows depth (Grammar.variant (Grammar.shapeAt limit room))
      VariantTree.value := by
  intro ls ts h
  change _ = outcome ls depth _ (Grammar.readVariant (Grammar.shapeAt limit room) ts)
  rw [Rules.variant]
  cases ts with
  | nil => exact bind_stopped next_nil _
  | cons t ts =>
    have hrest : ts <:+ Parser.tokensOf ls := (List.suffix_cons _ _).trans h
    rw [bind_ok (next_cons h), Grammar.readVariant]
    cases Name.ofToken? t with
    | none =>
      cases hstarts : startsShape (t :: ts) with
      | false =>
        rw [Grammar.read_shapeAt_of_startsShape_eq_false hstarts]
        exact (bind_ok (hinner.absent h hstarts) _).trans (unexpected_facing h _)
      | true =>
        refine (bind_outcome (hinner.starts h hstarts) _).trans ?_
        cases (Grammar.shapeAt limit room).read (t :: ts) <;> rfl
    | some name =>
      refine (bind_ok (advance_facing h) _).trans ?_
      cases hstarts : startsShape ts with
      | false => exact bind_ok (hinner.absent hrest hstarts) _
      | true =>
        refine (bind_outcome (hinner.starts hrest hstarts) _).trans ?_
        cases (Grammar.shapeAt limit room).read ts <;> rfl

/-- What is kept of a variant is what is not covered by those before it. -/
theorem keep_append_dropCovered (seen : List String) (of : TypeExpr) (v : Variant)
    (rest : List Variant) :
    (keep seen of v).2 ++ TypeExpr.dropCovered (keep seen of v).1 rest
      = of ++ TypeExpr.dropCovered seen (v :: rest) := by
  rw [TypeExpr.dropCovered, keep]
  cases v.name with
  | none => simp
  | some name =>
    by_cases hseen : name ∈ seen
    · simp [hseen]
    · simp [hseen]

section VariantRound

variable {v : TokenReader VariantTree} {a : VariantTree} {rest : List Token}
  (hv : (Rules.variant inner).Follows depth v VariantTree.value)

include hv

theorem variantRound_again (h : ts <:+ Parser.tokensOf ls)
    (hpipe : .pipe :: rest <:+ Parser.tokensOf ls) (hread : v.read ts = .ok (a, .pipe :: rest))
    (kept : List String × TypeExpr) :
    Rules.variantRound inner kept (.facing ls depth ts)
      = some (.ok (.again (keep kept.1 kept.2 a.value)), .facing ls depth rest) := by
  rw [Rules.variantRound, bind_ok (hv.of_ok h hread)]
  exact bind_ok (accept_cons_self hpipe) _

theorem variantRound_done (h : ts <:+ Parser.tokensOf ls) (hrest : rest <:+ Parser.tokensOf ls)
    (hread : v.read ts = .ok (a, rest)) (hne : rest.head? ≠ some .pipe)
    (kept : List String × TypeExpr) :
    Rules.variantRound inner kept (.facing ls depth ts)
      = some (.ok (.done (keep kept.1 kept.2 a.value).2), .facing ls depth rest) := by
  rw [Rules.variantRound, bind_ok (hv.of_ok h hread)]
  exact bind_ok (accept_of_ne hrest hne) _

end VariantRound

theorem variants_facing {v : TokenReader VariantTree}
    (hv : (Rules.variant inner).Follows depth v VariantTree.value)
    (hinverts : v.Inverts VariantTree.tokens (VariantTree.Fits room))
    (h : ts <:+ Parser.tokensOf ls) (seen : List String) (of : TypeExpr) :
    Rules.variants inner seen of (.facing ls depth ts)
      = outcome ls depth (fun vs => of ++ TypeExpr.dropCovered seen vs.values)
        (Grammar.readVariants v ts) := by
  -- the walk keeps variants as it finds them, so `seen` and `of` grow along the induction
  fun_induction Grammar.readVariants v ts generalizing seen of with
  | case1 ts stop hread => exact loop_stopped (bind_stopped (hv.of_error h hread) _)
  | case2 ts a rest hread _ stop hrest ih =>
    obtain ⟨rfl, -⟩ := hinverts.of_read hread
    have hpipe := (List.suffix_append _ _).trans h
    have hafter := (List.suffix_cons _ _).trans hpipe
    have hvariants := ih hafter (keep seen of a.value).1 (keep seen of a.value).2
    rw [hrest] at hvariants
    refine (loop_again h hafter ?_ (variantRound_again hv h hpipe hread _)).trans hvariants
    simp only [List.length_append, List.length_cons]
    omega
  | case3 ts a rest hread _ vs rest' hrest ih =>
    obtain ⟨rfl, -⟩ := hinverts.of_read hread
    have hpipe := (List.suffix_append _ _).trans h
    have hafter := (List.suffix_cons _ _).trans hpipe
    have hvariants := ih hafter (keep seen of a.value).1 (keep seen of a.value).2
    rw [hrest] at hvariants
    refine (loop_again h hafter ?_ (variantRound_again hv h hpipe hread _)).trans ?_
    · simp only [List.length_append, List.length_cons]
      omega
    · refine hvariants.trans ?_
      simp only [outcome, keep_append_dropCovered, VariantsTree.values]
  | case4 ts a rest hne hread =>
    obtain ⟨rfl, -⟩ := hinverts.of_read hread
    have hrest := (List.suffix_append _ _).trans h
    have hlast := Grammar.head?_ne_some_iff.2 hne
    refine (loop_done (variantRound_done hv h hrest hread hlast _)).trans ?_
    have hkeep := keep_append_dropCovered seen of a.value []
    rw [TypeExpr.dropCovered, List.append_nil] at hkeep
    simp only [outcome, VariantsTree.values, ← hkeep]

theorem maybeVariants_append_dropCovered (maybe : Bool) (vs : List Variant) :
    maybeVariants maybe ++ TypeExpr.dropCovered (if maybe then ["Null", "Undefined"] else []) vs
      = TypeExpr.dropCovered [] (maybeVariants maybe ++ vs) := by
  cases maybe <;> rfl

theorem union_follows (hinner : FollowsShape inner limit room depth) :
    (Rules.union inner).Follows depth (Grammar.union (Grammar.shapeAt limit room))
      ExprTree.value := by
  intro ls ts h
  rcases hlabel : takeLabel ts with ⟨label, ts₁⟩
  rcases hmaybe : takeMaybe ts₁ with ⟨maybe, ts₂⟩
  obtain ⟨hts, -⟩ := Grammar.of_takeLabel hlabel
  obtain ⟨hts₁, -⟩ := Grammar.of_takeMaybe hmaybe
  have h₁ : ts₁ <:+ Parser.tokensOf ls := (List.suffix_append _ _).trans (hts ▸ h)
  have h₂ : ts₂ <:+ Parser.tokensOf ls := (List.suffix_append _ _).trans (hts₁ ▸ h₁)
  rw [Rules.union, Grammar.read_union_eq hlabel hmaybe]
  by_cases hnil : ts₁ = []
  · -- the tokens end before a variant, and the walk finds it out a little sooner
    subst hnil
    cases hmaybe
    rw [Grammar.readVariants_nil]
    by_cases hempty : ts = []
    · subst hempty
      exact bind_stopped (bind_stopped next_nil _) _
    · rw [bind_ok (label_facing h hempty hlabel)]
      exact bind_stopped (bind_stopped next_nil _) _
  · have hne : ts ≠ [] := by
      rintro rfl
      cases hlabel
      exact hnil rfl
    have hinverts := Grammar.variant_inverts (Grammar.shapeAt_inverts limit room)
    rw [bind_ok (label_facing h hne hlabel), bind_ok (maybe_facing h₁ hnil hmaybe),
      variants_facing (variant_follows hinner) hinverts h₂]
    cases Grammar.readVariants (Grammar.variant (Grammar.shapeAt limit room)) ts₂ with
    | error stop => rfl
    | ok first => simp only [outcome, maybeVariants_append_dropCovered, ExprTree.value]

/-! ## Shapes -/

section Shapes

variable {u : TokenReader ExprTree} {of : ExprTree} {rest rest' : List Token} {comma : Bool}

theorem suffix_of_read (hinverts : u.Inverts ExprTree.tokens (ExprTree.Fits room))
    (hread : u.read ts = .ok (of, rest)) (h : ts <:+ Parser.tokensOf ls) :
    rest <:+ Parser.tokensOf ls := by
  obtain ⟨rfl, -⟩ := hinverts.of_read hread
  exact (List.suffix_append _ _).trans h

theorem suffix_of_takeComma (hcomma : takeComma rest = (comma, rest'))
    (h : rest <:+ Parser.tokensOf ls) : rest' <:+ Parser.tokensOf ls := by
  obtain ⟨rfl, -⟩ := Grammar.of_takeComma hcomma
  exact (List.suffix_append _ _).trans h

theorem length_of_takeComma (hread : u.read ts = .ok (of, rest))
    (hcomma : takeComma rest = (comma, rest')) : rest'.length < ts.length := by
  have hle := Grammar.length_takeComma_le rest
  rw [hcomma] at hle
  exact Nat.lt_of_le_of_lt hle (u.shortens hread)

/-- A slot or the type of a field, with or without a comma behind it. -/
theorem bind_union_comma (hu : (Rules.union inner).Follows depth u ExprTree.value)
    (hinverts : u.Inverts ExprTree.tokens (ExprTree.Fits room))
    (h : ts <:+ Parser.tokensOf ls) (hread : u.read ts = .ok (of, rest))
    (hcomma : takeComma rest = (comma, rest')) (next : TypeExpr → Walk β) :
    (do let of ← Rules.union inner; let _ ← accept .comma; next of) (.facing ls depth ts)
      = next of.value (.facing ls depth rest') := by
  rw [bind_ok (hu.of_ok h hread)]
  exact bind_ok (comma_facing (suffix_of_read hinverts hread h) hcomma) _

theorem fieldRound_ellipsis (h : .ellipsis :: ts <:+ Parser.tokensOf ls) (before : List Field) :
    Rules.fieldRound inner before (.facing ls depth (.ellipsis :: ts))
      = some (.ok (.done (before, true)), .facing ls depth ts) := by
  rw [Rules.fieldRound, bind_ok (accept_cons_self h), if_pos rfl]
  rfl

/-- A field begins with its key and a colon. -/
theorem fieldRound_key {key : String}
    (h : .identifier key :: .colon :: ts <:+ Parser.tokensOf ls) (before : List Field) :
    Rules.fieldRound inner before (.facing ls depth (.identifier key :: .colon :: ts))
      = (Rules.union inner >>= fun of => do
          let _ ← accept .comma
          let before := Field.insert (.mk key of) before
          if (← next) = Token.rightBrace then return Round.done (before, false)
          else return Round.again before) (.facing ls depth ts) := by
  have hcolon := (List.suffix_cons _ _).trans h
  rw [Rules.fieldRound, bind_ok (accept_of_ne h (by simp)), if_neg Bool.false_ne_true,
    bind_ok (key_facing h), bind_ok (expect_cons_self hcolon)]

variable (hu : (Rules.union inner).Follows depth u ExprTree.value)
  (hinverts : u.Inverts ExprTree.tokens (ExprTree.Fits room))

include hu hinverts

theorem slotRound_eq (h : ts <:+ Parser.tokensOf ls) (hread : u.read ts = .ok (of, rest))
    (hcomma : takeComma rest = (comma, rest')) (before : List TypeExpr) :
    Rules.slotRound inner before (.facing ls depth ts)
      = (next >>= fun t =>
          if t = Token.rightParen then return Round.done (before ++ [of.value])
          else return Round.again (before ++ [of.value])) (.facing ls depth rest') := by
  rw [Rules.slotRound, bind_union_comma hu hinverts h hread hcomma]

/-- Behind a slot that is not the last, the next ones are walked over as if they were the first. -/
theorem slots_again (h : ts <:+ Parser.tokensOf ls) (hread : u.read ts = .ok (of, rest))
    (hcomma : takeComma rest = (comma, rest')) (hne : rest' ≠ [])
    (hparen : ∀ after, rest' ≠ .rightParen :: after) (before : List TypeExpr) :
    Rules.slots inner before (.facing ls depth ts)
      = Rules.slots inner (before ++ [of.value]) (.facing ls depth rest') := by
  have hrest := suffix_of_takeComma hcomma (suffix_of_read hinverts hread h)
  obtain ⟨t, ht, hnext⟩ := exists_next hrest hne hparen
  have hround := slotRound_eq hu hinverts h hread hcomma before
  rw [bind_ok hnext, if_neg ht] at hround
  rw [Rules.slots, bind_eq, loop_again h hrest (length_of_takeComma hread hcomma) hround,
    ← bind_eq, ← Rules.slots]

theorem slots_facing (h : ts <:+ Parser.tokensOf ls) (before : List TypeExpr) :
    Rules.slots inner before (.facing ls depth ts)
      = outcome ls depth (fun s => before ++ s.values) (Grammar.readSlots u ts) := by
  fun_induction Grammar.readSlots u ts generalizing before with
  | case1 ts stop hread =>
    exact bind_stopped (loop_stopped (bind_stopped (hu.of_error h hread) _)) _
  | case2 ts of rest hread _ _ comma hcomma =>
    have hround := slotRound_eq hu hinverts h hread hcomma before
    exact bind_stopped (loop_stopped (hround.trans (bind_stopped next_nil _))) _
  | case3 ts of rest hread _ _ comma rest' hcomma =>
    have hparen := suffix_of_takeComma hcomma (suffix_of_read hinverts hread h)
    have hround := slotRound_eq hu hinverts h hread hcomma before
    rw [bind_ok (next_cons hparen), if_pos rfl] at hround
    rw [Rules.slots, bind_ok (loop_done hround)]
    exact bind_ok (expect_cons_self hparen) _
  | case4 ts of rest hread _ _ comma rest' hne hparen hcomma stop hslots ih =>
    have hrest := suffix_of_takeComma hcomma (suffix_of_read hinverts hread h)
    rw [slots_again hu hinverts h hread hcomma hne hparen, ih hrest, hslots]
    rfl
  | case5 ts of rest hread _ _ comma rest' hne hparen hcomma s after hslots ih =>
    have hrest := suffix_of_takeComma hcomma (suffix_of_read hinverts hread h)
    rw [slots_again hu hinverts h hread hcomma hne hparen, ih hrest, hslots]
    simp only [outcome, SlotsTree.values, List.append_assoc, List.singleton_append]

theorem fieldRound_eq {key : String} (h : .identifier key :: .colon :: ts <:+ Parser.tokensOf ls)
    (hread : u.read ts = .ok (of, rest)) (hcomma : takeComma rest = (comma, rest'))
    (before : List Field) :
    Rules.fieldRound inner before (.facing ls depth (.identifier key :: .colon :: ts))
      = (next >>= fun t =>
          if t = Token.rightBrace then
            return Round.done (Field.insert (.mk key of.value) before, false)
          else return Round.again (Field.insert (.mk key of.value) before))
        (.facing ls depth rest') := by
  have hts := (List.suffix_cons _ _).trans ((List.suffix_cons _ _).trans h)
  rw [fieldRound_key h, bind_union_comma hu hinverts hts hread hcomma]

/-- Behind a field that is not the last, the next ones are walked over as if they were the first. -/
theorem someFields_again {key : String}
    (h : .identifier key :: .colon :: ts <:+ Parser.tokensOf ls)
    (hread : u.read ts = .ok (of, rest)) (hcomma : takeComma rest = (comma, rest'))
    (hne : rest' ≠ []) (hbrace : ∀ after, rest' ≠ .rightBrace :: after) (before : List Field) :
    Rules.someFields inner before (.facing ls depth (.identifier key :: .colon :: ts))
      = Rules.someFields inner (Field.insert (.mk key of.value) before)
        (.facing ls depth rest') := by
  have hts := (List.suffix_cons _ _).trans ((List.suffix_cons _ _).trans h)
  have hrest := suffix_of_takeComma hcomma (suffix_of_read hinverts hread hts)
  obtain ⟨t, ht, hnext⟩ := exists_next hrest hne hbrace
  have hround := fieldRound_eq hu hinverts h hread hcomma before
  rw [bind_ok hnext, if_neg ht] at hround
  have hshorter : rest'.length < (.identifier key :: .colon :: ts : List Token).length :=
    Nat.lt_add_right 2 (length_of_takeComma hread hcomma)
  rw [Rules.someFields, bind_eq, loop_again h hrest hshorter hround, ← bind_eq,
    ← Rules.someFields]

theorem someFields_facing (h : ts <:+ Parser.tokensOf ls) (before : List Field) :
    Rules.someFields inner before (.facing ls depth ts)
      = outcome ls depth
        (fun fs => (fs.values.foldl (fun acc f => Field.insert f acc) before, fs.subset))
        (Grammar.readFields u ts) := by
  fun_induction Grammar.readFields u ts generalizing before with
  | case1 after stop hexpect =>
    have hafter := (List.suffix_cons _ _).trans h
    obtain ⟨hbrace, rfl⟩ := Grammar.expect_eq_error_iff.1 hexpect
    rw [Rules.someFields, bind_ok (loop_done (fieldRound_ellipsis h before))]
    exact bind_stopped (expect_of_ne hafter hbrace) _
  | case2 after rest hexpect =>
    obtain rfl := Grammar.eq_cons_of_expect hexpect
    have hafter := (List.suffix_cons _ _).trans h
    rw [Rules.someFields, bind_ok (loop_done (fieldRound_ellipsis h before))]
    exact bind_ok (expect_cons_self hafter) _
  | case3 key after stop hexpect =>
    obtain ⟨hcolon, rfl⟩ := Grammar.expect_eq_error_iff.1 hexpect
    have hafter := (List.suffix_cons _ _).trans h
    refine bind_stopped (loop_stopped ?_) _
    rw [Rules.fieldRound, bind_ok (accept_of_ne h (by simp)), if_neg Bool.false_ne_true,
      bind_ok (key_facing h)]
    exact bind_stopped (expect_of_ne hafter hcolon) _
  | case4 key after ts hexpect _ stop hread =>
    obtain rfl := Grammar.eq_cons_of_expect hexpect
    have hts := (List.suffix_cons _ _).trans ((List.suffix_cons _ _).trans h)
    refine bind_stopped (loop_stopped ?_) _
    rw [fieldRound_key h]
    exact bind_stopped (hu.of_error hts hread) _
  | case5 key after ts hexpect _ of rest hread _ _ comma hcomma =>
    obtain rfl := Grammar.eq_cons_of_expect hexpect
    have hround := fieldRound_eq hu hinverts h hread hcomma before
    exact bind_stopped (loop_stopped (hround.trans (bind_stopped next_nil _))) _
  | case6 key after ts hexpect _ of rest hread _ _ comma rest' hcomma =>
    obtain rfl := Grammar.eq_cons_of_expect hexpect
    have hts := (List.suffix_cons _ _).trans ((List.suffix_cons _ _).trans h)
    have hbrace := suffix_of_takeComma hcomma (suffix_of_read hinverts hread hts)
    have hround := fieldRound_eq hu hinverts h hread hcomma before
    rw [bind_ok (next_cons hbrace), if_pos rfl] at hround
    rw [Rules.someFields, bind_ok (loop_done hround)]
    exact bind_ok (expect_cons_self hbrace) _
  | case7 key after ts hexpect _ of rest hread _ _ comma rest' hne hbrace hcomma stop hfields ih =>
    obtain rfl := Grammar.eq_cons_of_expect hexpect
    have hts := (List.suffix_cons _ _).trans ((List.suffix_cons _ _).trans h)
    have hrest := suffix_of_takeComma hcomma (suffix_of_read hinverts hread hts)
    rw [someFields_again hu hinverts h hread hcomma hne hbrace, ih hrest, hfields]
    rfl
  | case8 key after ts hexpect _ of rest hread _ _ comma rest' hne hbrace hcomma fs rest₁ hfields
      ih =>
    obtain rfl := Grammar.eq_cons_of_expect hexpect
    have hts := (List.suffix_cons _ _).trans ((List.suffix_cons _ _).trans h)
    have hrest := suffix_of_takeComma hcomma (suffix_of_read hinverts hread hts)
    rw [someFields_again hu hinverts h hread hcomma hne hbrace, ih hrest, hfields]
    rfl
  | case9 ts hellipsis hkey =>
    have hnone : ts.head? ≠ some .ellipsis := Grammar.head?_ne_some_iff.2 hellipsis
    refine bind_stopped (loop_stopped ?_) _
    rw [Rules.fieldRound, bind_ok (accept_of_ne h hnone), if_neg Bool.false_ne_true]
    exact bind_stopped (key_of_ne h fun text => Grammar.head?_ne_some_iff.2 (hkey text)) _

theorem array_facing (hnil : u.read [] = .error ⟨.unexpectedEnd, []⟩)
    (h : .leftBracket :: ts <:+ Parser.tokensOf ls) :
    Rules.array inner (.facing ls depth (.leftBracket :: ts))
      = outcome ls depth ShapeTree.value (Grammar.readShape u (.leftBracket :: ts)) := by
  have hts := (List.suffix_cons _ _).trans h
  rw [Rules.array]
  by_cases hbracket : ts.head? = some .rightBracket
  · obtain ⟨after, rfl⟩ := List.head?_eq_some_iff.1 hbracket
    exact bind_stopped (opening_closer (.inl rfl) h) _
  rw [Grammar.readShape_leftBracket u hbracket]
  by_cases hempty : ts = []
  · subst hempty
    rw [hnil]
    exact bind_stopped (opening_nil h) _
  rw [bind_ok (opening_facing h hempty hbracket), bind_outcome (hu ls ts hts)]
  cases hread : u.read ts with
  | error stop => rfl
  | ok first =>
    obtain ⟨of, rest⟩ := first
    have hrest := suffix_of_read hinverts hread hts
    by_cases hclose : rest.head? = some .rightBracket
    · obtain ⟨after, rfl⟩ := List.head?_eq_some_iff.1 hclose
      simp only [Grammar.expect_cons_self]
      exact bind_ok (expect_cons_self hrest) _
    · simp only [Grammar.expect_eq_error_iff.2 ⟨hclose, rfl⟩]
      exact bind_stopped (expect_of_ne hrest hclose) _

theorem tuple_facing (hnil : u.read [] = .error ⟨.unexpectedEnd, []⟩)
    (h : .leftParen :: ts <:+ Parser.tokensOf ls) :
    Rules.tuple inner (.facing ls depth (.leftParen :: ts))
      = outcome ls depth ShapeTree.value (Grammar.readShape u (.leftParen :: ts)) := by
  have hts := (List.suffix_cons _ _).trans h
  rw [Rules.tuple]
  by_cases hparen : ts.head? = some .rightParen
  · obtain ⟨after, rfl⟩ := List.head?_eq_some_iff.1 hparen
    exact bind_stopped (opening_closer (.inr rfl) h) _
  rw [Grammar.readShape_leftParen u hparen]
  by_cases hempty : ts = []
  · subst hempty
    rw [Grammar.readSlots_eq_error_iff.2 (.inSlot hnil)]
    exact bind_stopped (opening_nil h) _
  rw [bind_ok (opening_facing h hempty hparen), bind_outcome (slots_facing hu hinverts hts [])]
  cases Grammar.readSlots u ts <;> rfl

theorem fields_facing (h : .leftBrace :: ts <:+ Parser.tokensOf ls) :
    Rules.fields inner (.facing ls depth (.leftBrace :: ts))
      = outcome ls depth ShapeTree.value (Grammar.readShape u (.leftBrace :: ts)) := by
  have hts := (List.suffix_cons _ _).trans h
  rw [Rules.fields, bind_ok (expect_cons_self h),
    bind_outcome (someFields_facing hu hinverts hts []), Grammar.readShape]
  cases Grammar.readFields u ts <;> rfl

theorem shape_facing (hnil : u.read [] = .error ⟨.unexpectedEnd, []⟩) {t : Token}
    (ht : t.opens = true) (h : t :: ts <:+ Parser.tokensOf ls) :
    Rules.shape inner t (.facing ls depth (t :: ts))
      = outcome ls depth ShapeTree.value (Grammar.readShape u (t :: ts)) := by
  cases t with
  | leftBracket =>
    rw [Rules.shape]
    exact array_facing hu hinverts hnil h
  | leftParen =>
    rw [Rules.shape]
    exact tuple_facing hu hinverts hnil h
  | leftBrace =>
    rw [Rules.shape]
    · exact fields_facing hu hinverts h
    · intro hparen
      cases hparen
    · intro hbracket
      cases hbracket
  | _ => cases ht

end Shapes

/-- What a walk finds one shape deeper, it finds without having gone deeper. -/
theorem nested_facing {w : Walk α} {rest : List Token} {found : Except Fault α}
    (h : w (.facing ls (depth + 1) ts) = some (found, .facing ls (depth + 1) rest)) :
    (show Walk (Except Fault α) from fun c => do
        let (found, c) ← w { c with depth := c.depth + 1 }
        return (.ok found, { c with depth := c.depth - 1 })) (.facing ls depth ts)
      = some (.ok found, .facing ls depth rest) := by
  change (w (.facing ls (depth + 1) ts)).bind _ = _
  rw [h]
  rfl

theorem shape?_of_startsShape_eq_false (h : ts <:+ Parser.tokensOf ls)
    (hstarts : startsShape ts = false) :
    Rules.shape? inner limit (.facing ls depth ts) = some (.ok none, .facing ls depth ts) := by
  rw [Rules.shape?, bind_get, Cursor.token?_facing h]
  cases ts with
  | nil => rfl
  | cons t ts =>
    have ht : t.opens = false := hstarts
    simp only [List.getElem?_cons_zero, ht]
    rfl

theorem shape?_at_limit (h : ts <:+ Parser.tokensOf ls) (hstarts : startsShape ts = true)
    (hdepth : depth = limit) :
    Rules.shape? inner limit (.facing ls depth ts)
      = stopped ls depth ⟨.tooDeep limit, ts⟩ := by
  cases ts with
  | nil => cases hstarts
  | cons t ts =>
    have ht : t.opens = true := hstarts
    rw [Rules.shape?, bind_get, Cursor.token?_facing h]
    simp only [List.getElem?_cons_zero, ht, if_true]
    rw [if_pos]
    · exact fail_facing (by simp) (by simp)
    · exact Nat.le_of_eq hdepth.symm

theorem shape?_below_limit (hinner : FollowsShape inner limit room (depth + 1))
    (h : ts <:+ Parser.tokensOf ls) (hstarts : startsShape ts = true) (hdepth : depth < limit) :
    Rules.shape? inner limit (.facing ls depth ts)
      = outcome ls depth (fun s : ShapeTree => some s.value)
        ((Grammar.shapeAt limit (room + 1)).read ts) := by
  cases ts with
  | nil => cases hstarts
  | cons t ts =>
    have ht : t.opens = true := hstarts
    have hwalk := shape_facing (union_follows hinner)
      (Grammar.union_inverts (Grammar.shapeAt_inverts limit room))
      (Grammar.read_union_nil _) ht h
    have hread : (Grammar.shapeAt limit (room + 1)).read (t :: ts)
        = Grammar.readShape (Grammar.union (Grammar.shapeAt limit room)) (t :: ts) := rfl
    rw [Rules.shape?, bind_get, Cursor.token?_facing h, hread]
    simp only [List.getElem?_cons_zero, ht, if_true]
    rw [if_neg]
    · cases hshape : Grammar.readShape (Grammar.union (Grammar.shapeAt limit room)) (t :: ts) with
      | error stop =>
        rw [hshape] at hwalk
        exact bind_ok (nested_facing hwalk) _
      | ok first =>
        rw [hshape] at hwalk
        exact bind_ok (nested_facing hwalk) _
    · exact Nat.not_le.2 hdepth

/-- The room that the grammar leaves for shapes is what the depth of a walk leaves of the limit. -/
theorem followsShape_shapeTo {levels : Nat} (h : depth + room = limit) (hlevels : room < levels) :
    FollowsShape (shapeTo limit levels) limit room depth := by
  -- the shapes inside a shape have one room and one level less and stand one deeper
  induction room generalizing depth levels with
  | zero =>
    obtain ⟨levels, rfl⟩ := Nat.exists_eq_add_one.2 hlevels
    refine ⟨fun hts hstarts => ?_, shape?_of_startsShape_eq_false⟩
    rw [Grammar.shapeAt, Grammar.noShape]
    simp only [hstarts, if_true]
    exact shape?_at_limit hts hstarts h
  | succ room ih =>
    obtain ⟨levels, rfl⟩ := Nat.exists_eq_add_one.2 (Nat.zero_lt_of_lt hlevels)
    have hinner : FollowsShape (shapeTo limit levels) limit room (depth + 1) :=
      ih (by omega) (by omega)
    refine ⟨fun hts hstarts => ?_, shape?_of_startsShape_eq_false⟩
    exact shape?_below_limit hinner hts hstarts (by omega)

theorem followsShape (h : depth + room = limit) : FollowsShape (shape? limit) limit room depth :=
  followsShape_shapeTo h (by omega)

theorem parse_facing (h : ts <:+ Parser.tokensOf ls) :
    parse limit (.facing ls 0 ts) = outcome ls 0 ExprTree.value (Grammar.read limit ts) := by
  rw [parse]
  cases ts with
  | nil =>
    have hread : Grammar.read limit [] = .error ⟨.unexpectedEnd, []⟩ := Grammar.read_union_nil _
    rw [hread]
    exact bind_stopped next_nil _
  | cons t ts =>
    rw [bind_ok (next_cons h)]
    by_cases ht : t = .doubleColon
    · subst ht
      exact fail_facing nofun nofun
    · have hread : Grammar.read limit (t :: ts)
          = (Grammar.union (Grammar.shapeAt limit limit)).read (t :: ts) := by
        unfold Grammar.read
        split
        · next heq => exact absurd (List.cons.inj heq).1 ht
        · rfl
      rw [if_neg ht, hread]
      exact union_follows (followsShape (Nat.zero_add limit)) ls (t :: ts) h

end Walk

end TypeNotation
