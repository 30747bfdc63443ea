import TypeNotation.Proofs.Grammar.Exact

set_option autoImplicit false

/-! # Where reading stops

A reader that fails gives a cause and the tokens from where it stopped. For each rule of the grammar
there is a relation with one constructor for each way to fail, and the reader fails in just these
ways. Every reader stops inside the tokens it was given, at a place that bears the cause out
(`read_within`): reading ends for want of tokens only behind the last of them, and an empty array is
found between its two brackets. -/

namespace TypeNotation.Grammar

variable {room : Nat} {ts : List Token} {stop : Stop}

/-! ## The ways to fail -/

theorem expect_eq_error_iff {t : Token} :
    expect t ts = .error stop ↔ ts.head? ≠ some t ∧ stop = unexpected (.literal t) ts := by
  cases ts with
  | nil => simp [expect, eq_comm]
  | cons u after =>
    rw [expect]
    by_cases hu : u = t
    · simp [hu]
    · simp [hu, @eq_comm _ stop]

/-- The ways in which `variant shape` fails: no token is left, the shape fails that begins behind a
    name, or there is no name and the shape fails that should be there instead. -/
inductive VariantStop (shape : TokenReader ShapeTree) : List Token → Stop → Prop
  | atEnd : VariantStop shape [] ⟨.unexpectedEnd, []⟩
  | inShapeOf (name : Name) {ts : List Token} {stop : Stop} (hstarts : startsShape ts = true)
      (h : shape.read ts = .error stop) : VariantStop shape (name.token :: ts) stop
  | inShape {t : Token} {ts : List Token} {stop : Stop} (ht : Name.ofToken? t = none)
      (h : shape.read (t :: ts) = .error stop) : VariantStop shape (t :: ts) stop

theorem variant_eq_error_iff {shape : TokenReader ShapeTree} :
    (variant shape).read ts = .error stop ↔ VariantStop shape ts stop := by
  change readVariant shape ts = .error stop ↔ _
  constructor
  · intro h
    unfold readVariant at h
    split at h
    · cases h
      exact .atEnd
    · next t after =>
      split at h
      · next hname =>
        split at h
        · next hread =>
          cases h
          exact .inShape hname hread
        · cases h
      · next name hname =>
        obtain rfl := Name.token_of_ofToken? hname
        split at h
        · next hstarts =>
          split at h
          · next hread =>
            cases h
            exact .inShapeOf name hstarts hread
          · cases h
        · cases h
  · intro h
    cases h with
    | atEnd => rfl
    | inShapeOf name hstarts h => simp [readVariant, ofToken?_token, hstarts, h]
    | inShape ht h => simp [readVariant, ht, h]

/-- The ways in which `variants variant` fails: at its first variant, or at one behind a `|`. -/
inductive VariantsStop (variant : TokenReader VariantTree) : List Token → Stop → Prop
  | first {ts : List Token} {stop : Stop} (h : variant.read ts = .error stop) :
      VariantsStop variant ts stop
  | later {ts rest : List Token} {stop : Stop} (v : VariantTree)
      (hv : variant.read ts = .ok (v, .pipe :: rest)) (h : VariantsStop variant rest stop) :
      VariantsStop variant ts stop

theorem variants_eq_error_iff {variant : TokenReader VariantTree} :
    (variants variant).read ts = .error stop ↔ VariantsStop variant ts stop := by
  change readVariants variant ts = .error stop ↔ _
  constructor
  · intro h
    fun_induction readVariants variant ts with
    | case1 ts stop' hread =>
      cases h
      exact .first hread
    | case2 ts v rest hread _ stop' hrest ih =>
      cases h
      exact .later v hread (ih hrest)
    | case3 => cases h
    | case4 => cases h
  · intro h
    induction h with
    | first h => rw [readVariants_eq, h]
    | later v hv h ih =>
      rw [readVariants_eq, hv]
      simp only [ih]

theorem union_eq_error_iff {shape : TokenReader ShapeTree} :
    (union shape).read ts = .error stop ↔
      ∃ label ts₁ maybe ts₂, takeLabel ts = (label, ts₁) ∧ takeMaybe ts₁ = (maybe, ts₂) ∧
        VariantsStop (variant shape) ts₂ stop := by
  simp only [← variants_eq_error_iff]
  change readUnion (variants (variant shape)) ts = .error stop ↔ _
  constructor
  · intro h
    unfold readUnion at h
    split at h
    next label ts₁ hlabel =>
      split at h
      next maybe ts₂ hmaybe =>
        split at h
        · next hread =>
          cases h
          exact ⟨label, ts₁, maybe, ts₂, hlabel, hmaybe, hread⟩
        · cases h
  · rintro ⟨label, ts₁, maybe, ts₂, hlabel, hmaybe, hread⟩
    simp only [readUnion, hlabel, hmaybe, hread]

theorem readVariants_nil (shape : TokenReader ShapeTree) :
    readVariants (variant shape) [] = .error ⟨.unexpectedEnd, []⟩ :=
  variants_eq_error_iff.2 (.first (variant_eq_error_iff.2 .atEnd))

theorem read_union_nil (shape : TokenReader ShapeTree) :
    (union shape).read [] = .error ⟨.unexpectedEnd, []⟩ := by
  rw [read_union_eq rfl rfl, readVariants_nil]

/-- The ways in which `readSlots union` fails: in a slot, or behind a slot because no token is left.
    -/
inductive SlotsStop (union : TokenReader ExprTree) : List Token → Stop → Prop
  | inSlot {ts : List Token} {stop : Stop} (h : union.read ts = .error stop) :
      SlotsStop union ts stop
  | atEnd {ts rest : List Token} (of : ExprTree) (comma : Bool)
      (hof : union.read ts = .ok (of, rest)) (hcomma : takeComma rest = (comma, [])) :
      SlotsStop union ts ⟨.unexpectedEnd, []⟩
  | later {ts rest rest' : List Token} {stop : Stop} (of : ExprTree) (comma : Bool)
      (hof : union.read ts = .ok (of, rest)) (hcomma : takeComma rest = (comma, rest'))
      (hne : rest' ≠ []) (hparen : rest'.head? ≠ some .rightParen)
      (h : SlotsStop union rest' stop) : SlotsStop union ts stop

theorem readSlots_eq_error_iff {union : TokenReader ExprTree} :
    readSlots union ts = .error stop ↔ SlotsStop union ts stop := by
  constructor
  · intro h
    fun_induction readSlots union ts with
    | case1 ts stop' hread =>
      cases h
      exact .inSlot hread
    | case2 ts of rest hread _ _ comma hcomma =>
      cases h
      exact .atEnd of comma hread hcomma
    | case3 => cases h
    | case4 ts of rest hread _ _ comma rest' hne hparen hcomma stop' hrest ih =>
      cases h
      exact .later of comma hread hcomma hne (head?_ne_some_iff.2 hparen) (ih hrest)
    | case5 => cases h
  · intro h
    induction h with
    | inSlot h => rw [readSlots_eq, h]
    | atEnd of comma hof hcomma =>
      rw [readSlots_eq, hof]
      simp only [hcomma]
    | later of comma hof hcomma hne hparen h ih =>
      rw [readSlots_eq, hof]
      simp only [hcomma]
      split
      · next heq => exact absurd (Prod.mk.inj heq).2 hne
      · next heq => exact absurd (Prod.mk.inj heq).2 (head?_ne_some_iff.1 hparen _)
      · next heq =>
        cases heq
        simp only [ih]

/-- The ways in which `readFields union` fails: there is no field, the brace behind `...` or the
    colon behind a key is missing, a union fails, or no token is left behind a field. -/
inductive FieldsStop (union : TokenReader ExprTree) : List Token → Stop → Prop
  | noField {ts : List Token} (hellipsis : ts.head? ≠ some .ellipsis)
      (hkey : ∀ key, ts.head? ≠ some (.identifier key)) :
      FieldsStop union ts (unexpected .text ts)
  | afterEllipsis {ts : List Token} (hbrace : ts.head? ≠ some .rightBrace) :
      FieldsStop union (.ellipsis :: ts) (unexpected (.literal .rightBrace) ts)
  | noColon (key : String) {ts : List Token} (hcolon : ts.head? ≠ some .colon) :
      FieldsStop union (.identifier key :: ts) (unexpected (.literal .colon) ts)
  | inField (key : String) {ts : List Token} {stop : Stop} (h : union.read ts = .error stop) :
      FieldsStop union (.identifier key :: .colon :: ts) stop
  | atEnd (key : String) {ts rest : List Token} (of : ExprTree) (comma : Bool)
      (hof : union.read ts = .ok (of, rest)) (hcomma : takeComma rest = (comma, [])) :
      FieldsStop union (.identifier key :: .colon :: ts) ⟨.unexpectedEnd, []⟩
  | later (key : String) {ts rest rest' : List Token} {stop : Stop} (of : ExprTree)
      (comma : Bool) (hof : union.read ts = .ok (of, rest))
      (hcomma : takeComma rest = (comma, rest')) (hne : rest' ≠ [])
      (hbrace : rest'.head? ≠ some .rightBrace) (h : FieldsStop union rest' stop) :
      FieldsStop union (.identifier key :: .colon :: ts) stop

theorem readFields_eq_error_iff {union : TokenReader ExprTree} :
    readFields union ts = .error stop ↔ FieldsStop union ts stop := by
  constructor
  · intro h
    fun_induction readFields union ts with
    | case1 after stop' hexpect =>
      cases h
      obtain ⟨hbrace, rfl⟩ := expect_eq_error_iff.1 hexpect
      exact .afterEllipsis hbrace
    | case2 => cases h
    | case3 key after stop' hexpect =>
      cases h
      obtain ⟨hcolon, rfl⟩ := expect_eq_error_iff.1 hexpect
      exact .noColon key hcolon
    | case4 key after rest' hexpect _ stop' hread =>
      cases h
      obtain rfl := eq_cons_of_expect hexpect
      exact .inField key hread
    | case5 key after rest' hexpect _ of rest hread _ _ comma hcomma =>
      cases h
      obtain rfl := eq_cons_of_expect hexpect
      exact .atEnd key of comma hread hcomma
    | case6 => cases h
    | case7 key after rest₁ hexpect _ of rest hread _ _ comma rest' hne hbrace hcomma stop' hrest
        ih =>
      cases h
      obtain rfl := eq_cons_of_expect hexpect
      exact .later key of comma hread hcomma hne (head?_ne_some_iff.2 hbrace) (ih hrest)
    | case8 => cases h
    | case9 ts hellipsis hkey =>
      cases h
      exact .noField (head?_ne_some_iff.2 hellipsis) fun key => head?_ne_some_iff.2 (hkey key)
  · intro h
    induction h with
    | noField hellipsis hkey =>
      rw [readFields]
      · exact head?_ne_some_iff.1 hellipsis
      · exact fun key => head?_ne_some_iff.1 (hkey key)
    | afterEllipsis hbrace =>
      rw [readFields, expect_eq_error_iff.2 ⟨hbrace, rfl⟩]
    | noColon key hcolon =>
      have hexpect := expect_eq_error_iff.2 ⟨hcolon, rfl⟩
      rw [readFields]
      split
      · next h =>
        cases h.symm.trans hexpect
        rfl
      · next h => cases h.symm.trans hexpect
    | inField key h =>
      rw [readFields_key_eq, h]
    | atEnd key of comma hof hcomma =>
      rw [readFields_key_eq, hof]
      simp only [hcomma]
    | later key of comma hof hcomma hne hbrace h ih =>
      rw [readFields_key_eq, hof]
      simp only [hcomma]
      split
      · next heq => exact absurd (Prod.mk.inj heq).2 hne
      · next heq => exact absurd (Prod.mk.inj heq).2 (head?_ne_some_iff.1 hbrace _)
      · next heq =>
        cases heq
        simp only [ih]

/-- The ways in which `shape union` fails: no shape begins, there is nothing inside its brackets,
    what is inside fails, or the bracket that closes an array is missing. -/
inductive ShapeStop (union : TokenReader ExprTree) : List Token → Stop → Prop
  | noShape {ts : List Token} (hstarts : startsShape ts = false) :
      ShapeStop union ts (unexpected .type ts)
  | emptyArray (ts : List Token) :
      ShapeStop union (.leftBracket :: .rightBracket :: ts) ⟨.emptyArray, .rightBracket :: ts⟩
  | emptyTuple (ts : List Token) :
      ShapeStop union (.leftParen :: .rightParen :: ts) ⟨.emptyTuple, .rightParen :: ts⟩
  | inArray {ts : List Token} {stop : Stop} (hbracket : ts.head? ≠ some .rightBracket)
      (h : union.read ts = .error stop) : ShapeStop union (.leftBracket :: ts) stop
  | unclosed {ts rest : List Token} (of : ExprTree) (hbracket : ts.head? ≠ some .rightBracket)
      (hof : union.read ts = .ok (of, rest)) (hrest : rest.head? ≠ some .rightBracket) :
      ShapeStop union (.leftBracket :: ts) (unexpected (.literal .rightBracket) rest)
  | inTuple {ts : List Token} {stop : Stop} (hparen : ts.head? ≠ some .rightParen)
      (h : SlotsStop union ts stop) : ShapeStop union (.leftParen :: ts) stop
  | inFields {ts : List Token} {stop : Stop} (h : FieldsStop union ts stop) :
      ShapeStop union (.leftBrace :: ts) stop

theorem shape_eq_error_iff {union : TokenReader ExprTree} :
    (shape union).read ts = .error stop ↔ ShapeStop union ts stop := by
  change readShape union ts = .error stop ↔ _
  constructor
  · intro h
    unfold readShape at h
    split at h
    · next after =>
      cases h
      exact .emptyArray after
    · next after =>
      cases h
      exact .emptyTuple after
    · next after hne =>
      split at h
      · next hread =>
        cases h
        exact .inArray (head?_ne_some_iff.2 hne) hread
      · next of rest hread =>
        split at h
        · next hexpect =>
          cases h
          obtain ⟨hrest, rfl⟩ := expect_eq_error_iff.1 hexpect
          exact .unclosed of (head?_ne_some_iff.2 hne) hread hrest
        · cases h
    · next after hne =>
      split at h
      · next hread =>
        cases h
        exact .inTuple (head?_ne_some_iff.2 hne) (readSlots_eq_error_iff.1 hread)
      · cases h
    · next after =>
      split at h
      · next hread =>
        cases h
        exact .inFields (readFields_eq_error_iff.1 hread)
      · cases h
    · next hbracket hparen hbrace =>
      cases h
      refine .noShape ?_
      cases ts with
      | nil => rfl
      | cons t after => cases t <;> simp_all [startsShape, Token.opens]
  · intro h
    cases h with
    | noShape hstarts =>
      cases ts with
      | nil => rfl
      | cons t after => cases t <;> simp_all [startsShape, Token.opens, readShape]
    | emptyArray ts => rfl
    | emptyTuple ts => rfl
    | inArray hbracket h =>
      have hne := head?_ne_some_iff.1 hbracket
      simp [readShape, h]
    | unclosed of hbracket hof hrest =>
      have hne := head?_ne_some_iff.1 hbracket
      have hexpect := expect_eq_error_iff.2 ⟨hrest, rfl⟩
      simp [readShape, hof, hexpect]
    | inTuple hparen h =>
      have hne := head?_ne_some_iff.1 hparen
      simp [readShape, readSlots_eq_error_iff.2 h]
    | inFields h => simp [readShape, readFields_eq_error_iff.2 h]

theorem read_shapeAt_of_startsShape_eq_false {limit : Nat} (hstarts : startsShape ts = false) :
    (shapeAt limit room).read ts = .error (unexpected .type ts) := by
  cases room with
  | zero => simp [shapeAt, noShape, hstarts]
  | succ room => exact shape_eq_error_iff.2 (.noShape hstarts)

/-! ## A stop is borne out by the tokens around it -/

/-- What a cause says of the tokens read and of those that are left. -/
def Stop.BorneOut (front : List Token) (stop : Stop) : Prop :=
  match stop.cause with
  | .unexpectedEnd => stop.rest = []
  | .unexpected _ found => ∃ t, stop.rest.head? = some t ∧ t.text = found
  | .functionType => False
  | .missingLabel => stop.rest.head? = some .doubleColon
  | .emptyArray => front.getLast? = some .leftBracket ∧ stop.rest.head? = some .rightBracket
  | .emptyTuple => front.getLast? = some .leftParen ∧ stop.rest.head? = some .rightParen
  | .tooDeep _ => ∃ t, stop.rest.head? = some t ∧ t.opens = true

/-- A stop somewhere in a list of tokens. -/
def Stop.Within (ts : List Token) (stop : Stop) : Prop :=
  ∃ front, ts = front ++ stop.rest ∧ stop.BorneOut front

theorem Stop.BorneOut.append_left {front : List Token} (h : stop.BorneOut front)
    (l : List Token) : stop.BorneOut (l ++ front) := by
  obtain ⟨cause, rest⟩ := stop
  cases cause with
  | emptyArray => exact ⟨by simp [List.getLast?_append, h.1], h.2⟩
  | emptyTuple => exact ⟨by simp [List.getLast?_append, h.1], h.2⟩
  | _ => exact h

theorem Stop.Within.append_left (h : stop.Within ts) (l : List Token) :
    stop.Within (l ++ ts) := by
  obtain ⟨front, rfl, hborne⟩ := h
  exact ⟨l ++ front, (List.append_assoc ..).symm, hborne.append_left l⟩

theorem Stop.Within.cons (h : stop.Within ts) (t : Token) : stop.Within (t :: ts) :=
  h.append_left [t]

/-- Only the end of the tokens is a cause to stop behind the last of them. -/
theorem Stop.Within.ne_nil (h : stop.Within ts) (hcause : stop.cause ≠ .unexpectedEnd) :
    stop.rest ≠ [] := by
  obtain ⟨front, -, hborne⟩ := h
  obtain ⟨cause, rest⟩ := stop
  rintro rfl
  cases cause <;> simp_all [Stop.BorneOut]

theorem unexpected_within (expected : Expected) (ts : List Token) :
    (unexpected expected ts).Within ts := by
  cases ts with
  | nil => exact ⟨[], rfl, rfl⟩
  | cons t after => exact ⟨[], rfl, t, rfl, rfl⟩

/-- A reader that stops within the tokens it is given. -/
def TokenReader.StopsWithin {α : Type} (r : TokenReader α) : Prop :=
  ∀ (ts : List Token) (stop : Stop), r.read ts = .error stop → stop.Within ts

theorem variant_stopsWithin {shape : TokenReader ShapeTree} (hs : shape.StopsWithin) :
    (variant shape).StopsWithin := by
  intro ts stop h
  cases variant_eq_error_iff.1 h with
  | atEnd => exact ⟨[], rfl, rfl⟩
  | inShapeOf name _ h => exact (hs _ _ h).cons name.token
  | inShape _ h => exact hs _ _ h

theorem VariantsStop.within {variant : TokenReader VariantTree}
    (hv : variant.Inverts VariantTree.tokens (VariantTree.Fits room))
    (hstops : variant.StopsWithin) (h : VariantsStop variant ts stop) : stop.Within ts := by
  induction h with
  | first h => exact hstops _ _ h
  | later v hread h ih =>
    obtain ⟨rfl, -⟩ := hv.of_read hread
    exact (ih.cons .pipe).append_left v.tokens

theorem union_stopsWithin {shape : TokenReader ShapeTree}
    (hs : shape.Inverts ShapeTree.tokens (ShapeTree.Fits room)) (hstops : shape.StopsWithin) :
    (union shape).StopsWithin := by
  intro ts stop h
  obtain ⟨label, ts₁, maybe, ts₂, hlabel, hmaybe, hvariants⟩ := union_eq_error_iff.1 h
  obtain ⟨rfl, -⟩ := of_takeLabel hlabel
  obtain ⟨rfl, -⟩ := of_takeMaybe hmaybe
  have hrest := hvariants.within (variant_inverts hs) (variant_stopsWithin hstops)
  exact (hrest.append_left _).append_left _

variable {union : TokenReader ExprTree}

theorem SlotsStop.within (hu : union.Inverts ExprTree.tokens (ExprTree.Fits room))
    (hstops : union.StopsWithin) (h : SlotsStop union ts stop) : stop.Within ts := by
  induction h with
  | inSlot h => exact hstops _ _ h
  | @atEnd ts rest of comma hof hcomma => exact ⟨ts, (List.append_nil ts).symm, rfl⟩
  | later of comma hof hcomma _ _ _ ih =>
    obtain ⟨rfl, -⟩ := hu.of_read hof
    obtain ⟨rfl, -⟩ := of_takeComma hcomma
    exact (ih.append_left _).append_left _

theorem FieldsStop.within (hu : union.Inverts ExprTree.tokens (ExprTree.Fits room))
    (hstops : union.StopsWithin) (h : FieldsStop union ts stop) : stop.Within ts := by
  induction h with
  | noField => exact unexpected_within _ _
  | afterEllipsis => exact (unexpected_within _ _).cons _
  | noColon => exact (unexpected_within _ _).cons _
  | inField key h => exact ((hstops _ _ h).cons _).cons _
  | @atEnd key ts rest of comma hof hcomma =>
    exact ⟨.identifier key :: .colon :: ts, (List.append_nil _).symm, rfl⟩
  | later key of comma hof hcomma _ _ _ ih =>
    obtain ⟨rfl, -⟩ := hu.of_read hof
    obtain ⟨rfl, -⟩ := of_takeComma hcomma
    exact (((ih.append_left _).append_left _).cons _).cons _

theorem shape_stopsWithin (hu : union.Inverts ExprTree.tokens (ExprTree.Fits room))
    (hstops : union.StopsWithin) : (shape union).StopsWithin := by
  intro ts stop h
  cases shape_eq_error_iff.1 h with
  | noShape => exact unexpected_within _ _
  | emptyArray after => exact ⟨[.leftBracket], rfl, rfl, rfl⟩
  | emptyTuple after => exact ⟨[.leftParen], rfl, rfl, rfl⟩
  | inArray _ h => exact (hstops _ _ h).cons _
  | unclosed of _ hof =>
    obtain ⟨rfl, -⟩ := hu.of_read hof
    exact ((unexpected_within _ _).append_left _).cons _
  | inTuple _ h => exact (h.within hu hstops).cons _
  | inFields h => exact (h.within hu hstops).cons _

theorem noShape_stopsWithin (limit : Nat) : (noShape limit).StopsWithin := by
  intro ts stop h
  simp only [noShape] at h
  split at h
  · next hstarts =>
    cases h
    cases ts with
    | nil => cases hstarts
    | cons t after => exact ⟨[], rfl, t, rfl, hstarts⟩
  · cases h
    exact unexpected_within _ _

theorem shapeAt_stopsWithin (limit room : Nat) : (shapeAt limit room).StopsWithin := by
  induction room with
  | zero => exact noShape_stopsWithin limit
  | succ room ih =>
    have hinverts := shapeAt_inverts limit room
    exact shape_stopsWithin (union_inverts hinverts) (union_stopsWithin hinverts ih)

theorem read_within {limit : Nat} (h : read limit ts = .error stop) : stop.Within ts := by
  unfold read at h
  split at h
  · cases h
    exact ⟨[], rfl, rfl⟩
  · exact union_stopsWithin (shapeAt_inverts limit limit) (shapeAt_stopsWithin limit limit) _ _ h

end TypeNotation.Grammar
