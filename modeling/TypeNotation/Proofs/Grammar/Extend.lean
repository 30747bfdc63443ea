import TypeNotation.Proofs.Grammar.Stop

set_option autoImplicit false

/-! # What further tokens change

A reader that stops at some token has looked no further than one token ahead, for a `::` that would
make a label of it. So it stops there as well when the tokens behind are replaced by others
(`read_settled`), and in particular when more of them are added (`read_append_of_error`). -/

namespace TypeNotation.Grammar

variable {room : Nat} {ts : List Token} {stop : Stop}

/-! ## Single tokens -/

theorem head?_append_ne {t : Token} (h : ts.head? ≠ some t) (hts : ts ≠ []) (more : List Token) :
    (ts ++ more).head? ≠ some t := by
  rwa [List.head?_append_of_ne_nil _ hts]

theorem takeLabel_append {label : Option Token} {rest more : List Token}
    (h : takeLabel ts = (label, rest)) (hts : ts ≠ [])
    (hmore : more.head? ≠ some .doubleColon) : takeLabel (ts ++ more) = (label, rest ++ more) := by
  obtain ⟨rfl, hsecond⟩ := of_takeLabel h
  rw [List.append_assoc]
  apply takeLabel_on
  rintro rfl
  -- without a label `rest` is all of the tokens; if it is one, `more` begins with the second
  match rest with
  | [] => exact absurd rfl hts
  | [t] => simpa [List.head?_eq_getElem?] using hmore
  | t :: u :: after => simpa using hsecond rfl

/-! ## Tokens that can be replaced -/

/-- Tokens that can stand behind a token instead of others: they make a label of it only if the
    others did. -/
def Replaces (back' back : List Token) : Prop :=
  back'.head? = some .doubleColon → back.head? = some .doubleColon

variable {t : Token} {back back' : List Token}

theorem Replaces.second_ne (hback : Replaces back' back) {front : List Token}
    (h : (front ++ t :: back)[1]? ≠ some .doubleColon) :
    (front ++ t :: back')[1]? ≠ some .doubleColon := by
  match front with
  | [] =>
    intro hsecond
    rw [List.nil_append, List.getElem?_cons_succ, ← List.head?_eq_getElem?] at h hsecond
    exact h (hback hsecond)
  | [_] => exact h
  | _ :: _ :: _ => exact h

theorem startsShape_replace (front : List Token) (t : Token) (back back' : List Token) :
    startsShape (front ++ t :: back) = startsShape (front ++ t :: back') := by
  cases front <;> rfl

theorem unexpected_eq_iff {expected : Expected} {cause : Cause} :
    unexpected expected ts = ⟨cause, t :: back⟩ ↔
      ts = t :: back ∧ cause = .unexpected expected t.text := by
  cases ts with
  | nil => simp [unexpected]
  | cons u after =>
    simp only [unexpected, Stop.mk.injEq, List.cons.injEq]
    constructor
    · rintro ⟨rfl, rfl, rfl⟩
      exact ⟨⟨rfl, rfl⟩, rfl⟩
    · rintro ⟨⟨rfl, rfl⟩, rfl⟩
      exact ⟨rfl, rfl, rfl⟩

/-- Stopping at a token is settled before the tokens behind it are seen. -/
def Settled (stops : List Token → Stop → Prop) : Prop :=
  ∀ (ts : List Token) (cause : Cause) (t : Token) (back : List Token),
    stops ts ⟨cause, t :: back⟩ →
      ∃ front, ts = front ++ t :: back ∧
        ∀ back', Replaces back' back → stops (front ++ t :: back') ⟨cause, t :: back'⟩

/-- What a reader stops at is settled. -/
def TokenReader.Settles {α : Type} (r : TokenReader α) : Prop :=
  Settled fun ts stop => r.read ts = .error stop

/-! ## Unions -/

theorem variant_settles {shape : TokenReader ShapeTree} (hs : shape.Settles) :
    (variant shape).Settles := by
  intro ts cause t back h
  cases variant_eq_error_iff.1 h with
  | inShapeOf name hstarts h =>
    obtain ⟨front, rfl, hfront⟩ := hs _ _ _ _ h
    refine ⟨name.token :: front, rfl, fun back' hback => variant_eq_error_iff.2 ?_⟩
    rw [startsShape_replace front t back back'] at hstarts
    exact .inShapeOf name hstarts (hfront back' hback)
  | @inShape u after _ hu h =>
    obtain ⟨front, heq, hfront⟩ := hs _ _ _ _ h
    refine ⟨front, heq, fun back' hback => variant_eq_error_iff.2 ?_⟩
    -- the first token stays what it is, so it still is no name
    cases front with
    | nil =>
      cases heq
      exact .inShape hu (hfront back' hback)
    | cons v front =>
      cases heq
      exact .inShape hu (hfront back' hback)

theorem variantsStop_settled {variant : TokenReader VariantTree}
    (hv : variant.Inverts VariantTree.tokens (VariantTree.Fits room)) (hsettles : variant.Settles) :
    Settled (VariantsStop variant) := by
  intro ts cause t back h
  generalize hstop : Stop.mk cause (t :: back) = stop at h
  induction h with
  | first h =>
    subst hstop
    obtain ⟨front, rfl, hfront⟩ := hsettles _ _ _ _ h
    exact ⟨front, rfl, fun back' hback => .first (hfront back' hback)⟩
  | later v hread _ ih =>
    obtain ⟨front, rfl, hfront⟩ := ih hstop
    obtain ⟨rfl, hfits⟩ := hv.of_read hread
    refine ⟨v.tokens ++ .pipe :: front, by simp, fun back' hback => ?_⟩
    rw [List.append_assoc, List.cons_append]
    exact .later v (hv.read_on v _ hfits) (hfront back' hback)

theorem union_settles {shape : TokenReader ShapeTree}
    (hs : shape.Inverts ShapeTree.tokens (ShapeTree.Fits room)) (hsettles : shape.Settles) :
    (union shape).Settles := by
  intro ts cause t back h
  obtain ⟨label, ts₁, maybe, ts₂, hlabel, hmaybe, hvariants⟩ := union_eq_error_iff.1 h
  obtain ⟨front, rfl, hfront⟩ :=
    variantsStop_settled (variant_inverts hs) (variant_settles hsettles) _ _ _ _ hvariants
  obtain ⟨rfl, hfirst⟩ := of_takeMaybe hmaybe
  obtain ⟨rfl, hsecond⟩ := of_takeLabel hlabel
  refine ⟨labelTokens label ++ (maybeTokens maybe ++ front), by simp, fun back' hback => ?_⟩
  simp only [List.append_assoc]
  refine union_eq_error_iff.2 ⟨label, _, maybe, _, takeLabel_on fun hnone => ?_,
    takeMaybe_on fun hnone => ?_, hfront back' hback⟩
  · rw [← List.append_assoc] at hsecond ⊢
    exact hback.second_ne (hsecond hnone)
  · simpa [List.head?_append] using hfirst hnone

/-! ## Shapes -/

variable {union : TokenReader ExprTree}

theorem slotsStop_settled (hu : union.Inverts ExprTree.tokens (ExprTree.Fits room))
    (hsettles : union.Settles) : Settled (SlotsStop union) := by
  intro ts cause t back h
  generalize hstop : Stop.mk cause (t :: back) = stop at h
  induction h with
  | inSlot h =>
    subst hstop
    obtain ⟨front, rfl, hfront⟩ := hsettles _ _ _ _ h
    exact ⟨front, rfl, fun back' hback => .inSlot (hfront back' hback)⟩
  | atEnd => cases hstop
  | later of comma hof hcomma _ hparen _ ih =>
    obtain ⟨front, rfl, hfront⟩ := ih hstop
    obtain ⟨rfl, hnocomma⟩ := of_takeComma hcomma
    obtain ⟨rfl, hfits⟩ := hu.of_read hof
    refine ⟨of.tokens ++ (commaTokens comma ++ front), by simp, fun back' hback => ?_⟩
    simp only [List.append_assoc]
    refine .later of comma (hu.read_on of _ ?_) (takeComma_on comma _ fun hnone => ?_) (by simp) ?_
      (hfront back' hback)
    · simpa [List.head?_append] using hfits
    · simpa [List.head?_append] using hnocomma hnone
    · simpa [List.head?_append] using hparen

theorem fieldsStop_settled (hu : union.Inverts ExprTree.tokens (ExprTree.Fits room))
    (hsettles : union.Settles) : Settled (FieldsStop union) := by
  intro ts cause t back h
  generalize hstop : Stop.mk cause (t :: back) = stop at h
  induction h with
  | noField hellipsis hkey =>
    obtain ⟨rfl, rfl⟩ := unexpected_eq_iff.1 hstop.symm
    exact ⟨[], rfl, fun back' _ => .noField hellipsis hkey⟩
  | afterEllipsis hbrace =>
    obtain ⟨rfl, rfl⟩ := unexpected_eq_iff.1 hstop.symm
    exact ⟨[.ellipsis], rfl, fun back' _ => .afterEllipsis hbrace⟩
  | noColon key hcolon =>
    obtain ⟨rfl, rfl⟩ := unexpected_eq_iff.1 hstop.symm
    exact ⟨[.identifier key], rfl, fun back' _ => .noColon key hcolon⟩
  | inField key h =>
    subst hstop
    obtain ⟨front, rfl, hfront⟩ := hsettles _ _ _ _ h
    exact ⟨.identifier key :: .colon :: front, rfl,
      fun back' hback => .inField key (hfront back' hback)⟩
  | atEnd => cases hstop
  | later key of comma hof hcomma _ hbrace _ ih =>
    obtain ⟨front, rfl, hfront⟩ := ih hstop
    obtain ⟨rfl, hnocomma⟩ := of_takeComma hcomma
    obtain ⟨rfl, hfits⟩ := hu.of_read hof
    refine ⟨.identifier key :: .colon :: (of.tokens ++ (commaTokens comma ++ front)), by simp,
      fun back' hback => ?_⟩
    simp only [List.cons_append, List.append_assoc]
    refine .later key of comma (hu.read_on of _ ?_) (takeComma_on comma _ fun hnone => ?_)
      (by simp) ?_ (hfront back' hback)
    · simpa [List.head?_append] using hfits
    · simpa [List.head?_append] using hnocomma hnone
    · simpa [List.head?_append] using hbrace

theorem shape_settles (hu : union.Inverts ExprTree.tokens (ExprTree.Fits room))
    (hsettles : union.Settles) : (shape union).Settles := by
  intro ts cause t back h
  replace h := shape_eq_error_iff.1 h
  generalize hstop : Stop.mk cause (t :: back) = stop at h
  simp only [shape_eq_error_iff]
  cases h with
  | noShape hstarts =>
    obtain ⟨rfl, rfl⟩ := unexpected_eq_iff.1 hstop.symm
    exact ⟨[], rfl, fun back' _ => .noShape hstarts⟩
  | emptyArray after =>
    cases hstop
    exact ⟨[.leftBracket], rfl, fun back' _ => .emptyArray back'⟩
  | emptyTuple after =>
    cases hstop
    exact ⟨[.leftParen], rfl, fun back' _ => .emptyTuple back'⟩
  | inArray hbracket h =>
    subst hstop
    obtain ⟨front, rfl, hfront⟩ := hsettles _ _ _ _ h
    refine ⟨.leftBracket :: front, rfl, fun back' hback => .inArray ?_ (hfront back' hback)⟩
    simpa [List.head?_append] using hbracket
  | unclosed of hbracket hof hrest =>
    obtain ⟨rfl, rfl⟩ := unexpected_eq_iff.1 hstop.symm
    obtain ⟨rfl, hfits⟩ := hu.of_read hof
    refine ⟨.leftBracket :: of.tokens, rfl, fun back' _ => ?_⟩
    have hbracket' : (of.tokens ++ t :: back').head? ≠ some .rightBracket := by
      simpa [List.head?_append] using hbracket
    exact .unclosed of hbracket' (hu.read_on of (t :: back') hfits) hrest
  | inTuple hparen h =>
    subst hstop
    obtain ⟨front, rfl, hfront⟩ := slotsStop_settled hu hsettles _ _ _ _ h
    refine ⟨.leftParen :: front, rfl, fun back' hback => .inTuple ?_ (hfront back' hback)⟩
    simpa [List.head?_append] using hparen
  | inFields h =>
    subst hstop
    obtain ⟨front, rfl, hfront⟩ := fieldsStop_settled hu hsettles _ _ _ _ h
    exact ⟨.leftBrace :: front, rfl, fun back' hback => .inFields (hfront back' hback)⟩

theorem noShape_settles (limit : Nat) : (noShape limit).Settles := by
  intro ts cause t back h
  simp only [noShape] at h ⊢
  split at h
  · next hstarts =>
    cases h
    exact ⟨[], rfl, fun back' _ => if_pos hstarts⟩
  · next hstarts =>
    obtain ⟨rfl, rfl⟩ := unexpected_eq_iff.1 (Except.error.inj h)
    exact ⟨[], rfl, fun back' _ => if_neg hstarts⟩

theorem shapeAt_settles (limit room : Nat) : (shapeAt limit room).Settles := by
  induction room with
  | zero => exact noShape_settles limit
  | succ room ih =>
    have hinverts := shapeAt_inverts limit room
    exact shape_settles (union_inverts hinverts) (union_settles hinverts ih)

/-! ## Whole specifications -/

/-- Reading that stops at a token also stops there with other tokens behind it. -/
theorem read_settled (limit : Nat) : Settled fun ts stop => read limit ts = .error stop := by
  intro ts cause t back h
  by_cases hcolon : ts.head? = some .doubleColon
  · obtain ⟨after, rfl⟩ := List.head?_eq_some_iff.1 hcolon
    cases h
    exact ⟨[], rfl, fun back' _ => rfl⟩
  · rw [read_eq_union limit hcolon] at h
    obtain ⟨front, rfl, hfront⟩ :=
      union_settles (shapeAt_inverts limit limit) (shapeAt_settles limit limit) _ _ _ _ h
    refine ⟨front, rfl, fun back' hback => ?_⟩
    have hcolon' : (front ++ t :: back').head? ≠ some .doubleColon := by
      simpa [List.head?_append] using hcolon
    exact (read_eq_union limit hcolon').trans (hfront back' hback)

/-- The same stop with further tokens behind it. -/
def Stop.append (stop : Stop) (more : List Token) : Stop :=
  ⟨stop.cause, stop.rest ++ more⟩

/-- Any cause but the end of the tokens is found again, at the same place, whatever follows. -/
theorem read_append_of_error {limit : Nat} {more : List Token} (h : read limit ts = .error stop)
    (hcause : stop.cause ≠ .unexpectedEnd) (hmore : more.head? ≠ some .doubleColon) :
    read limit (ts ++ more) = .error (stop.append more) := by
  have hrest := (read_within h).ne_nil hcause
  obtain ⟨cause, rest⟩ := stop
  obtain ⟨t, back, rfl⟩ := List.exists_cons_of_ne_nil hrest
  obtain ⟨front, rfl, hfront⟩ := read_settled limit _ _ _ _ h
  have hreplaces : Replaces (back ++ more) back := by
    intro hhead
    cases back with
    | nil => exact absurd hhead hmore
    | cons u after => exact hhead
  simpa [Stop.append] using hfront _ hreplaces

end TypeNotation.Grammar
