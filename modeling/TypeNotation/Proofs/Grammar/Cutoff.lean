import TypeNotation.Proofs.Grammar.Free

set_option autoImplicit false

/-! # What the limit cuts off

`openings` lists the brackets with which reading without a limit opens a shape, in the order in
which it comes to them, and tells how many shapes are open behind each of them. A shape is open from
its bracket on until it has been read, so what stands beside it is as deep as the shape itself, and
a bracket that was passed as a label opens nothing. Reading with a limit does the same as without
one, up to the first bracket that would open a shape too many; there it stops
(`read_cutsOff`). -/

namespace TypeNotation.Grammar

/-- A bracket that opens a shape: how many shapes are open behind it, and the tokens from it on. -/
structure Opening where
  depth : Nat
  rest : List Token

/-- The tokens without the name in front of them, if there is one. -/
def dropName : List Token → List Token
  | [] => []
  | t :: rest => if (Name.ofToken? t).isSome then rest else t :: rest

/-- Whether no further slot or field comes before the bracket `closer`. -/
def atClose (closer : Token) (ts : List Token) : Bool :=
  ts.head?.all (· = closer)

theorem atClose_iff {closer : Token} {ts : List Token} :
    atClose closer ts = true ↔ ts = [] ∨ ∃ after, ts = closer :: after := by
  cases ts <;> simp [atClose]

theorem length_dropName_le (ts : List Token) : (dropName ts).length ≤ ts.length := by
  cases ts with
  | nil => exact Nat.le_refl _
  | cons t after =>
    rw [dropName]
    split <;> simp

-- A rule that calls another one on the same tokens has the greater measure.
mutual

/-- The openings while a shape is read inside `depth` open ones. -/
def shapeOpenings (depth : Nat) : List Token → List Opening
  | .leftBracket :: ts =>
    ⟨depth + 1, .leftBracket :: ts⟩ ::
      if ts.head? = some .rightBracket then [] else unionOpenings (depth + 1) ts
  | .leftParen :: ts =>
    ⟨depth + 1, .leftParen :: ts⟩ ::
      if ts.head? = some .rightParen then [] else slotsOpenings (depth + 1) ts
  | .leftBrace :: ts => ⟨depth + 1, .leftBrace :: ts⟩ :: fieldsOpenings (depth + 1) ts
  | _ => []
termination_by ts => 4 * ts.length

/-- The openings while variants are read inside `depth` open shapes: those of the first one, and if
    it is followed by a `|`, those of the further ones. -/
def variantsOpenings (depth : Nat) (ts : List Token) : List Opening :=
  have := length_dropName_le ts
  shapeOpenings depth (dropName ts) ++
    match h : (variant freeShape).read ts with
    | .ok (_, .pipe :: rest) =>
      have := Nat.lt_of_succ_lt ((variant freeShape).shortens h)
      variantsOpenings depth rest
    | _ => []
termination_by 4 * ts.length + 1

/-- The openings while a union is read inside `depth` open shapes. Its label opens nothing, even if
    it is a bracket. -/
def unionOpenings (depth : Nat) (ts : List Token) : List Opening :=
  have := length_takeLabel_le ts
  have := length_takeMaybe_le (takeLabel ts).2
  variantsOpenings depth (takeMaybe (takeLabel ts).2).2
termination_by 4 * ts.length + 2

/-- The openings while the slots of a tuple are read inside `depth` open shapes, up to the closing
    parenthesis. -/
def slotsOpenings (depth : Nat) (ts : List Token) : List Opening :=
  unionOpenings depth ts ++
    match h : (union freeShape).read ts with
    | .error _ => []
    | .ok (_, rest) =>
      have := (union freeShape).shortens h
      have := length_takeComma_le rest
      if atClose .rightParen (takeComma rest).2 then []
      else slotsOpenings depth (takeComma rest).2
termination_by 4 * ts.length + 3

/-- The openings while the fields of a record are read inside `depth` open shapes, up to the closing
    brace. -/
def fieldsOpenings (depth : Nat) : List Token → List Opening
  | .identifier _ :: .colon :: ts =>
    unionOpenings depth ts ++
      match h : (union freeShape).read ts with
      | .error _ => []
      | .ok (_, rest) =>
        have := (union freeShape).shortens h
        have := length_takeComma_le rest
        if atClose .rightBrace (takeComma rest).2 then []
        else fieldsOpenings depth (takeComma rest).2
  | _ => []
termination_by ts => 4 * ts.length + 3

end

/-- The openings while a whole specification is read. -/
def openings : List Token → List Opening
  | .doubleColon :: _ => []
  | ts => unionOpenings 0 ts

variable {limit depth : Nat} {ts : List Token}

theorem shapeOpenings_of_startsShape_eq_false (hstarts : startsShape ts = false) :
    shapeOpenings depth ts = [] := by
  cases ts with
  | nil => rw [shapeOpenings] <;> simp
  | cons t after => cases t <;> simp_all [startsShape, Token.opens, shapeOpenings]

theorem exists_shapeOpenings_eq (depth : Nat) (hstarts : startsShape ts = true) :
    ∃ os, shapeOpenings depth ts = ⟨depth + 1, ts⟩ :: os := by
  cases ts with
  | nil => cases hstarts
  | cons t after => cases t <;> simp_all [startsShape, Token.opens, shapeOpenings]

/-- `variantsOpenings` without the bookkeeping of its termination. -/
theorem variantsOpenings_eq (depth : Nat) (ts : List Token) :
    variantsOpenings depth ts =
      shapeOpenings depth (dropName ts) ++
        match (variant freeShape).read ts with
        | .ok (_, .pipe :: rest) => variantsOpenings depth rest
        | _ => [] := by
  rw [variantsOpenings]
  congr 1
  split
  · next h => simp only [h]
  · next hne =>
    split
    · next h => exact absurd h (hne _ _)
    · rfl

theorem slotsOpenings_eq (depth : Nat) (ts : List Token) :
    slotsOpenings depth ts =
      unionOpenings depth ts ++
        match (union freeShape).read ts with
        | .error _ => []
        | .ok (_, rest) =>
          if atClose .rightParen (takeComma rest).2 then []
          else slotsOpenings depth (takeComma rest).2 := by
  rw [slotsOpenings]
  congr 1
  split
  · next h => simp only [h]
  · next h => simp only [h]

theorem fieldsOpenings_of_no_key
    (h : ¬∃ key after, ts = .identifier key :: .colon :: after) :
    fieldsOpenings depth ts = [] := by
  rw [fieldsOpenings]
  intro key after hts
  exact h ⟨key, after, hts⟩

theorem fieldsOpenings_key_eq (depth : Nat) (key : String) (ts : List Token) :
    fieldsOpenings depth (.identifier key :: .colon :: ts) =
      unionOpenings depth ts ++
        match (union freeShape).read ts with
        | .error _ => []
        | .ok (_, rest) =>
          if atClose .rightBrace (takeComma rest).2 then []
          else fieldsOpenings depth (takeComma rest).2 := by
  rw [fieldsOpenings]
  congr 1
  split
  · next h => simp only [h]
  · next h => simp only [h]

/-! ## The first opening too many -/

/-- `o` is the first of `os` with more than `limit` shapes open, and it opens just one too many. -/
def FirstBeyond (limit : Nat) (os : List Opening) (o : Opening) : Prop :=
  ∃ before after, os = before ++ o :: after ∧ (∀ o' ∈ before, o'.depth ≤ limit) ∧
    o.depth = limit + 1

theorem FirstBeyond.depth_eq {os : List Opening} {o : Opening} (h : FirstBeyond limit os o) :
    o.depth = limit + 1 := by
  obtain ⟨_, _, _, _, hdepth⟩ := h
  exact hdepth

theorem FirstBeyond.mem {os : List Opening} {o : Opening} (h : FirstBeyond limit os o) :
    o ∈ os := by
  obtain ⟨before, after, rfl, -, -⟩ := h
  exact List.mem_append_right before List.mem_cons_self

theorem FirstBeyond.append_right {os : List Opening} {o : Opening} (h : FirstBeyond limit os o)
    (os' : List Opening) : FirstBeyond limit (os ++ os') o := by
  obtain ⟨before, after, rfl, hbefore, hdepth⟩ := h
  exact ⟨before, after ++ os', by simp, hbefore, hdepth⟩

theorem FirstBeyond.append_left {os os' : List Opening} {o : Opening}
    (h : FirstBeyond limit os' o) (hos : ∀ o' ∈ os, o'.depth ≤ limit) :
    FirstBeyond limit (os ++ os') o := by
  obtain ⟨before, after, rfl, hbefore, hdepth⟩ := h
  refine ⟨os ++ before, after, by simp, fun o' ho' => ?_, hdepth⟩
  rcases List.mem_append.1 ho' with ho' | ho'
  · exact hos o' ho'
  · exact hbefore o' ho'

/-- With a limit one finds what one finds without it, or stops at the first opening too many. -/
def CutsOff {α : Type} (limit : Nat) (os : List Opening) (free found : Except Stop α) : Prop :=
  (∀ o ∈ os, o.depth ≤ limit) ∧ found = free ∨
    ∃ o, FirstBeyond limit os o ∧ found = .error ⟨.tooDeep limit, o.rest⟩

theorem cutsOff_nil {α : Type} (limit : Nat) (found : Except Stop α) :
    CutsOff limit [] found found :=
  .inl ⟨nofun, rfl⟩

theorem CutsOff.append_left {α : Type} {os os' : List Opening} {free found : Except Stop α}
    (h : CutsOff limit os' free found) (hos : ∀ o ∈ os, o.depth ≤ limit) :
    CutsOff limit (os ++ os') free found := by
  rcases h with ⟨hos', rfl⟩ | ⟨o, ho, rfl⟩
  · refine .inl ⟨fun o ho => ?_, rfl⟩
    rcases List.mem_append.1 ho with ho | ho
    · exact hos o ho
    · exact hos' o ho
  · exact .inr ⟨o, ho.append_left hos, rfl⟩

theorem CutsOff.cons {α : Type} {o : Opening} {os : List Opening} {free found : Except Stop α}
    (h : CutsOff limit os free found) (ho : o.depth ≤ limit) :
    CutsOff limit (o :: os) free found := by
  rw [← List.singleton_append]
  exact h.append_left (by simpa using ho)

section

variable {s : TokenReader ShapeTree}
  (hs : ∀ ts, CutsOff limit (shapeOpenings depth ts) (freeShape.read ts) (s.read ts))
include hs

theorem variant_cutsOff (ts : List Token) :
    CutsOff limit (shapeOpenings depth (dropName ts)) ((variant freeShape).read ts)
      ((variant s).read ts) := by
  change CutsOff _ _ (readVariant freeShape ts) (readVariant s ts)
  cases ts with
  | nil =>
    rw [dropName, shapeOpenings_of_startsShape_eq_false rfl]
    exact cutsOff_nil limit _
  | cons t after =>
    rcases hname : Name.ofToken? t with _ | name
    · simp only [dropName, hname, readVariant, Option.isSome_none, Bool.false_eq_true, if_false]
      rcases hs (t :: after) with ⟨hos, hread⟩ | ⟨o, ho, hread⟩
      · exact .inl ⟨hos, by rw [hread]⟩
      · exact .inr ⟨o, ho, by rw [hread]⟩
    · simp only [dropName, hname, readVariant, Option.isSome_some, if_true]
      rcases hstarts : startsShape after with _ | _
      · rw [shapeOpenings_of_startsShape_eq_false hstarts]
        exact cutsOff_nil limit _
      · simp only [if_true]
        rcases hs after with ⟨hos, hread⟩ | ⟨o, ho, hread⟩
        · exact .inl ⟨hos, by rw [hread]⟩
        · exact .inr ⟨o, ho, by rw [hread]⟩

theorem readVariants_cutsOff (ts : List Token) :
    CutsOff limit (variantsOpenings depth ts) (readVariants (variant freeShape) ts)
      (readVariants (variant s) ts) := by
  rw [variantsOpenings_eq, readVariants_eq (variant s), readVariants_eq (variant freeShape)]
  rcases variant_cutsOff hs ts with ⟨hos, hread⟩ | ⟨o, ho, hread⟩
  · -- both readers stand behind the same variant, or stopped alike in it
    rw [hread]
    apply CutsOff.append_left _ hos
    split
    · next rest hfree =>
      have hlt := Nat.lt_of_succ_lt ((variant freeShape).shortens hfree)
      simp only [hfree]
      rcases readVariants_cutsOff rest with ⟨hos', hread'⟩ | ⟨o, ho, hread'⟩
      · exact .inl ⟨hos', by rw [hread']⟩
      · exact .inr ⟨o, ho, by rw [hread']⟩
    · next hlast =>
      split
      · exact cutsOff_nil limit _
      · next hfree => exact absurd hfree (hlast _ _)
      · exact cutsOff_nil limit _
  · exact .inr ⟨o, ho.append_right _, by rw [hread]⟩
termination_by ts.length

theorem union_cutsOff (ts : List Token) :
    CutsOff limit (unionOpenings depth ts) ((union freeShape).read ts) ((union s).read ts) := by
  rcases hlabel : takeLabel ts with ⟨label, ts₁⟩
  rcases hmaybe : takeMaybe ts₁ with ⟨maybe, ts₂⟩
  simp only [unionOpenings, read_union_eq hlabel hmaybe, hlabel, hmaybe]
  rcases readVariants_cutsOff hs ts₂ with ⟨hos, hread⟩ | ⟨o, ho, hread⟩
  · exact .inl ⟨hos, by rw [hread]⟩
  · exact .inr ⟨o, ho, by rw [hread]⟩

theorem readSlots_cutsOff (ts : List Token) :
    CutsOff limit (slotsOpenings depth ts) (readSlots (union freeShape) ts)
      (readSlots (union s) ts) := by
  rw [slotsOpenings_eq, readSlots_eq (union s), readSlots_eq (union freeShape)]
  rcases union_cutsOff hs ts with ⟨hos, hread⟩ | ⟨o, ho, hread⟩
  · rw [hread]
    apply CutsOff.append_left _ hos
    rcases hfree : (union freeShape).read ts with _ | ⟨of, rest⟩
    · exact cutsOff_nil limit _
    · have hlt := (union freeShape).shortens hfree
      rcases htaken : takeComma rest with ⟨comma, rest'⟩
      have hle := length_of_takeComma htaken
      simp only [htaken]
      by_cases hclose : atClose .rightParen rest' = true
      · rw [if_pos hclose]
        rcases atClose_iff.1 hclose with rfl | ⟨after, rfl⟩
        · exact cutsOff_nil limit _
        · exact cutsOff_nil limit _
      · rw [if_neg hclose]
        split
        · next h => exact absurd (atClose_iff.2 (.inl (Prod.mk.inj h).2)) hclose
        · next h => exact absurd (atClose_iff.2 (.inr ⟨_, (Prod.mk.inj h).2⟩)) hclose
        · next h =>
          cases h
          rcases readSlots_cutsOff rest' with ⟨hos', hread'⟩ | ⟨o, ho, hread'⟩
          · exact .inl ⟨hos', by rw [hread']⟩
          · exact .inr ⟨o, ho, by rw [hread']⟩
  · exact .inr ⟨o, ho.append_right _, by rw [hread]⟩
termination_by ts.length

theorem readFields_cutsOff (ts : List Token) :
    CutsOff limit (fieldsOpenings depth ts) (readFields (union freeShape) ts)
      (readFields (union s) ts) := by
  by_cases hkey : ∃ key after, ts = .identifier key :: .colon :: after
  · obtain ⟨key, ts, rfl⟩ := hkey
    rw [fieldsOpenings_key_eq, readFields_key_eq, readFields_key_eq]
    rcases union_cutsOff hs ts with ⟨hos, hread⟩ | ⟨o, ho, hread⟩
    · rw [hread]
      apply CutsOff.append_left _ hos
      rcases hfree : (union freeShape).read ts with _ | ⟨of, rest⟩
      · exact cutsOff_nil limit _
      · have hlt := (union freeShape).shortens hfree
        rcases htaken : takeComma rest with ⟨comma, rest'⟩
        have hle := length_of_takeComma htaken
        simp only [htaken]
        by_cases hclose : atClose .rightBrace rest' = true
        · rw [if_pos hclose]
          rcases atClose_iff.1 hclose with rfl | ⟨after, rfl⟩
          · exact cutsOff_nil limit _
          · exact cutsOff_nil limit _
        · rw [if_neg hclose]
          split
          · next h => exact absurd (atClose_iff.2 (.inl (Prod.mk.inj h).2)) hclose
          · next h => exact absurd (atClose_iff.2 (.inr ⟨_, (Prod.mk.inj h).2⟩)) hclose
          · next h =>
            cases h
            rcases readFields_cutsOff rest' with ⟨hos', hread'⟩ | ⟨o, ho, hread'⟩
            · exact .inl ⟨hos', by rw [hread']⟩
            · exact .inr ⟨o, ho, by rw [hread']⟩
    · exact .inr ⟨o, ho.append_right _, by rw [hread]⟩
  · rw [fieldsOpenings_of_no_key hkey, readFields_congr_of_no_key (union s) (union freeShape) hkey]
    exact cutsOff_nil limit _
termination_by ts.length
decreasing_by grind

end

/-- A shape is open from its bracket on, and the shapes in it are opened inside it. -/
theorem shape_cutsOff {s : TokenReader ShapeTree} (hdepth : depth < limit)
    (hs : ∀ ts, CutsOff limit (shapeOpenings (depth + 1) ts) (freeShape.read ts) (s.read ts))
    (ts : List Token) :
    CutsOff limit (shapeOpenings depth ts) ((shape (union freeShape)).read ts)
      ((shape (union s)).read ts) := by
  rcases hstarts : startsShape ts with _ | _
  · rw [shapeOpenings_of_startsShape_eq_false hstarts, shape_eq_error_iff.2 (.noShape hstarts),
      shape_eq_error_iff.2 (.noShape hstarts)]
    exact cutsOff_nil limit _
  change CutsOff _ _ (readShape (union freeShape) ts) (readShape (union s) ts)
  match ts with
  | .leftBracket :: ts =>
    rw [shapeOpenings]
    apply CutsOff.cons _ hdepth
    by_cases hbracket : ts.head? = some .rightBracket
    · obtain ⟨after, rfl⟩ := List.head?_eq_some_iff.1 hbracket
      exact cutsOff_nil limit _
    · rw [if_neg hbracket, readShape_leftBracket _ hbracket, readShape_leftBracket _ hbracket]
      rcases union_cutsOff hs ts with ⟨hos, hread⟩ | ⟨o, ho, hread⟩
      · exact .inl ⟨hos, by rw [hread]⟩
      · exact .inr ⟨o, ho, by rw [hread]⟩
  | .leftParen :: ts =>
    rw [shapeOpenings]
    apply CutsOff.cons _ hdepth
    by_cases hparen : ts.head? = some .rightParen
    · obtain ⟨after, rfl⟩ := List.head?_eq_some_iff.1 hparen
      exact cutsOff_nil limit _
    · rw [if_neg hparen, readShape_leftParen _ hparen, readShape_leftParen _ hparen]
      rcases readSlots_cutsOff hs ts with ⟨hos, hread⟩ | ⟨o, ho, hread⟩
      · exact .inl ⟨hos, by rw [hread]⟩
      · exact .inr ⟨o, ho, by rw [hread]⟩
  | .leftBrace :: ts =>
    rw [shapeOpenings]
    apply CutsOff.cons _ hdepth
    rcases readFields_cutsOff hs ts with ⟨hos, hread⟩ | ⟨o, ho, hread⟩
    · exact .inl ⟨hos, by simp only [readShape, hread]⟩
    · exact .inr ⟨o, ho, by simp only [readShape, hread]⟩

/-- By induction on the room that is left: with none, the next bracket is one too many. -/
theorem shapeAt_cutsOff {limit depth room : Nat} (h : depth + room = limit) (ts : List Token) :
    CutsOff limit (shapeOpenings depth ts) (freeShape.read ts) ((shapeAt limit room).read ts) := by
  induction room generalizing depth ts with
  | zero =>
    obtain rfl : depth = limit := h
    rcases hstarts : startsShape ts with _ | _
    · rw [shapeOpenings_of_startsShape_eq_false hstarts, freeShape_eq,
        read_shapeAt_of_startsShape_eq_false hstarts, shape_eq_error_iff.2 (.noShape hstarts)]
      exact cutsOff_nil depth _
    · obtain ⟨os, hos⟩ := exists_shapeOpenings_eq depth hstarts
      rw [hos]
      exact .inr ⟨_, ⟨[], os, rfl, nofun, rfl⟩, if_pos hstarts⟩
  | succ room ih =>
    rw [freeShape_eq]
    exact shape_cutsOff (by omega) (fun ts => ih (by omega) ts) ts

/-- The limit changes nothing before the first opening beyond it, and there reading stops. -/
theorem read_cutsOff (limit : Nat) (ts : List Token) :
    CutsOff limit (openings ts) (readFreely ts) (read limit ts) := by
  by_cases hcolon : ts.head? = some .doubleColon
  · obtain ⟨after, rfl⟩ := List.head?_eq_some_iff.1 hcolon
    exact cutsOff_nil limit _
  · have hopenings : openings ts = unionOpenings 0 ts := by
      unfold openings
      split
      · exact absurd rfl hcolon
      · rfl
    rw [hopenings, readFreely_eq_union hcolon, read_eq_union limit hcolon]
    exact union_cutsOff (fun ts => shapeAt_cutsOff (Nat.zero_add limit) ts) ts

/-- Where a tree is read, no more shapes are open at once than are inside one another in it. -/
theorem depth_le_iff_nesting_le {tree : ExprTree} {rest : List Token}
    (h : readFreely ts = .ok (tree, rest)) (limit : Nat) :
    (∀ o ∈ openings ts, o.depth ≤ limit) ↔ tree.nesting ≤ limit := by
  obtain ⟨htokens, hclear, -, hhead⟩ :=
    read_eq_ok_iff.1 ((read_eq_readFreely (Nat.le_refl ts.length)).trans h)
  constructor
  · intro hwithin
    rcases read_cutsOff limit ts with ⟨-, hread⟩ | ⟨o, hfirst, -⟩
    · exact (read_eq_ok_iff.1 (hread.trans h)).2.2.1
    · have hdepth := hfirst.depth_eq ▸ hwithin o hfirst.mem
      omega
  · intro hnesting
    have hread : read limit ts = .ok (tree, rest) :=
      read_eq_ok_iff.2 ⟨htokens, hclear, hnesting, hhead⟩
    rcases read_cutsOff limit ts with ⟨hwithin, -⟩ | ⟨o, -, herror⟩
    · exact hwithin
    · cases hread.symm.trans herror

end TypeNotation.Grammar
