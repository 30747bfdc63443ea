import TypeNotation.Proofs.Grammar.Stop

set_option autoImplicit false

/-! # Reading without a limit

When any number of shapes may be open at once, the reader of a shape is the one that also reads the
shapes inside it: it solves `s = shape (union s)`. `freeShape` does so (`freeShape_eq`), and nothing
else does (`eq_freeShape`). A shape takes at least its bracket off the tokens before the shapes in
it are read, so on any tokens a stack of as many readers as there are tokens is high enough; that
readers agree on all short lists of tokens is what goes up the stack. -/

namespace TypeNotation.Grammar

/-- Two readers that do the same with at most `n` tokens. -/
def TokenReader.AgreeUpTo {α : Type} (n : Nat) (r r' : TokenReader α) : Prop :=
  ∀ ts : List Token, ts.length ≤ n → r.read ts = r'.read ts

theorem TokenReader.ext_of_agreeUpTo {α : Type} {r r' : TokenReader α}
    (h : ∀ n, r.AgreeUpTo n r') : r = r' := by
  have hread : r.read = r'.read := funext fun ts => h ts.length ts (Nat.le_refl _)
  obtain ⟨read, _⟩ := r
  obtain ⟨read', _⟩ := r'
  obtain rfl : read = read' := hread
  rfl

variable {n : Nat} {ts : List Token}

/-! ## Unions -/

theorem variant_agreeUpTo {s s' : TokenReader ShapeTree} (h : s.AgreeUpTo n s') :
    (variant s).AgreeUpTo n (variant s') := by
  intro ts hts
  change readVariant s ts = readVariant s' ts
  cases ts with
  | nil => rfl
  | cons t after =>
    have hafter : s.read after = s'.read after := h after (Nat.le_of_succ_le hts)
    simp only [readVariant, h _ hts, hafter]

theorem readVariants_congr {v v' : TokenReader VariantTree} (h : v.AgreeUpTo n v')
    (ts : List Token) (hts : ts.length ≤ n) : readVariants v ts = readVariants v' ts := by
  rw [readVariants_eq v, readVariants_eq v', ← h ts hts]
  split
  · rfl
  · next rest hread =>
    have hlt := Nat.lt_of_succ_lt (v.shortens hread)
    rw [readVariants_congr h rest (by omega)]
  · rfl
termination_by ts.length

theorem union_agreeUpTo {s s' : TokenReader ShapeTree} (h : s.AgreeUpTo n s') :
    (union s).AgreeUpTo n (union s') := by
  intro ts hts
  rcases hlabel : takeLabel ts with ⟨label, ts₁⟩
  rcases hmaybe : takeMaybe ts₁ with ⟨maybe, ts₂⟩
  have hlength : ts₂.length ≤ ts.length := by
    rw [(of_takeLabel hlabel).1, (of_takeMaybe hmaybe).1]
    simp only [List.length_append]
    omega
  rw [read_union_eq hlabel hmaybe, read_union_eq hlabel hmaybe,
    readVariants_congr (variant_agreeUpTo h) ts₂ (Nat.le_trans hlength hts)]

/-! ## Shapes -/

variable {u u' : TokenReader ExprTree}

theorem length_of_takeComma {comma : Bool} {rest : List Token}
    (h : takeComma ts = (comma, rest)) : rest.length ≤ ts.length := by
  rw [(of_takeComma h).1, List.length_append]
  exact Nat.le_add_left _ _

theorem readSlots_congr (h : u.AgreeUpTo n u') (ts : List Token) (hts : ts.length ≤ n) :
    readSlots u ts = readSlots u' ts := by
  rw [readSlots_eq u, readSlots_eq u', ← h ts hts]
  split
  · rfl
  · next hread =>
    have hlt := u.shortens hread
    split
    · rfl
    · rfl
    · next rest _ _ hcomma =>
      have hle := length_of_takeComma hcomma
      rw [readSlots_congr h rest (by omega)]
termination_by ts.length

/-- Unless a key and its colon come first, no union is read. -/
theorem readFields_congr_of_no_key (u u' : TokenReader ExprTree)
    (h : ¬∃ key after, ts = .identifier key :: .colon :: after) :
    readFields u ts = readFields u' ts := by
  by_cases hellipsis : ts.head? = some .ellipsis
  · obtain ⟨after, rfl⟩ := List.head?_eq_some_iff.1 hellipsis
    rw [readFields, readFields]
  by_cases hkey : ∃ key, ts.head? = some (.identifier key)
  · obtain ⟨key, hkey⟩ := hkey
    obtain ⟨after, rfl⟩ := List.head?_eq_some_iff.1 hkey
    have hcolon : after.head? ≠ some .colon := by
      intro hcolon
      obtain ⟨after, rfl⟩ := List.head?_eq_some_iff.1 hcolon
      exact h ⟨key, after, rfl⟩
    rw [readFields_eq_error_iff.2 (.noColon key hcolon),
      readFields_eq_error_iff.2 (.noColon key hcolon)]
  · have hkey : ∀ key, ts.head? ≠ some (.identifier key) := not_exists.1 hkey
    rw [readFields_eq_error_iff.2 (.noField hellipsis hkey),
      readFields_eq_error_iff.2 (.noField hellipsis hkey)]

theorem readFields_congr (h : u.AgreeUpTo n u') (ts : List Token) (hts : ts.length ≤ n) :
    readFields u ts = readFields u' ts := by
  by_cases hkey : ∃ key after, ts = .identifier key :: .colon :: after
  · obtain ⟨key, ts, rfl⟩ := hkey
    simp only [List.length_cons] at hts
    rw [readFields_key_eq, readFields_key_eq, ← h ts (by omega)]
    split
    · rfl
    · next hread =>
      have hlt := u.shortens hread
      split
      · rfl
      · rfl
      · next rest _ _ hcomma =>
        have hle := length_of_takeComma hcomma
        rw [readFields_congr h rest (by omega)]
  · exact readFields_congr_of_no_key u u' hkey
termination_by ts.length
decreasing_by grind

theorem shape_agreeUpTo (h : u.AgreeUpTo n u') : (shape u).AgreeUpTo (n + 1) (shape u') := by
  intro ts hts
  change readShape u ts = readShape u' ts
  unfold readShape
  split
  · rfl
  · rfl
  · next after _ => rw [h after (Nat.le_of_succ_le_succ hts)]
  · next after _ => rw [readSlots_congr h after (Nat.le_of_succ_le_succ hts)]
  · next after => rw [readFields_congr h after (Nat.le_of_succ_le_succ hts)]
  · rfl

/-! ## The whole stack -/

theorem shapeAt_agreeUpTo {limit limit' room room' : Nat} (h : n ≤ room) (h' : n ≤ room') :
    (shapeAt limit room).AgreeUpTo n (shapeAt limit' room') := by
  induction n generalizing room room' with
  | zero =>
    intro ts hts
    obtain rfl := List.eq_nil_of_length_eq_zero (Nat.le_zero.1 hts)
    rw [read_shapeAt_of_startsShape_eq_false rfl, read_shapeAt_of_startsShape_eq_false rfl]
  | succ n ih =>
    obtain ⟨below, rfl⟩ := Nat.exists_eq_succ_of_ne_zero (Nat.ne_zero_of_lt h)
    obtain ⟨below', rfl⟩ := Nat.exists_eq_succ_of_ne_zero (Nat.ne_zero_of_lt h')
    exact shape_agreeUpTo (union_agreeUpTo
      (ih (Nat.le_of_succ_le_succ h) (Nat.le_of_succ_le_succ h')))

/-- A shape, with any number of shapes inside one another. -/
def freeShape : TokenReader ShapeTree where
  read ts := (shapeAt 0 ts.length).read ts
  shortens h := (shapeAt 0 _).shortens h

theorem freeShape_agreeUpTo (limit room : Nat) :
    freeShape.AgreeUpTo room (shapeAt limit room) :=
  fun ts hts => shapeAt_agreeUpTo (Nat.le_refl ts.length) hts ts (Nat.le_refl _)

/-- Nothing but the tokens limits `freeShape`. -/
theorem freeShape_eq : freeShape = shape (union freeShape) := by
  apply TokenReader.ext_of_agreeUpTo
  intro n ts hts
  have hstack : freeShape.read ts = (shapeAt 0 (n + 1)).read ts :=
    freeShape_agreeUpTo 0 (n + 1) ts (Nat.le_succ_of_le hts)
  have hinner : (union freeShape).AgreeUpTo n (union (shapeAt 0 n)) :=
    union_agreeUpTo (freeShape_agreeUpTo 0 n)
  rw [hstack, shape_agreeUpTo hinner ts (Nat.le_succ_of_le hts)]
  rfl

theorem eq_freeShape {s : TokenReader ShapeTree} (h : s = shape (union s)) : s = freeShape := by
  apply TokenReader.ext_of_agreeUpTo
  intro n
  induction n with
  | zero =>
    intro ts hts
    obtain rfl := List.eq_nil_of_length_eq_zero (Nat.le_zero.1 hts)
    rw [h]
    rfl
  | succ n ih =>
    rw [h, freeShape_eq]
    exact shape_agreeUpTo (union_agreeUpTo ih)

/-- The tree that some tokens begin with, however deep, and the tokens behind it. -/
def readFreely (ts : List Token) : Except Stop (ExprTree × List Token) :=
  match ts with
  | .doubleColon :: rest => .error ⟨.missingLabel, .doubleColon :: rest⟩
  | ts => (union freeShape).read ts

theorem readFreely_eq_union (h : ts.head? ≠ some .doubleColon) :
    readFreely ts = (union freeShape).read ts := by
  unfold readFreely
  split
  · exact absurd rfl h
  · rfl

/-- There are no more brackets than tokens, so a limit as high as that is none. -/
theorem read_eq_readFreely {limit : Nat} (h : ts.length ≤ limit) :
    read limit ts = readFreely ts := by
  by_cases hcolon : ts.head? = some .doubleColon
  · obtain ⟨after, rfl⟩ := List.head?_eq_some_iff.1 hcolon
    rfl
  · rw [read_eq_union limit hcolon, readFreely_eq_union hcolon]
    exact (union_agreeUpTo (freeShape_agreeUpTo limit limit) ts h).symm

end TypeNotation.Grammar
