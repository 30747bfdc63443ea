import TypeNotation.Proofs.Parser.Resume

set_option autoImplicit false

/-! # The word `Maybe`

`Maybe` in front of variants is short for `Undefined | Null |`, and nothing that follows tells the
two apart: neither a variant that is written twice nor a fault, wherever a union begins. Only a `::`
behind the word makes a label of it. -/

namespace TypeNotation

/-! ## Reading -/

namespace Grammar

/-- What the word `Maybe` is short for. -/
def maybeExpansion : List Token :=
  [.identifier "Undefined", .pipe, .identifier "Null", .pipe]

variable {shape : TokenReader ShapeTree} {ts : List Token}

theorem read_union_maybe (h : ts.head? ≠ some .doubleColon) :
    (union shape).read (maybeToken :: ts)
      = match readVariants (variant shape) ts with
        | .error stop => .error stop
        | .ok (vs, rest) => .ok (.mk none true vs, rest) := by
  have hlabel : takeLabel (maybeToken :: ts) = (none, maybeToken :: ts) := by
    have hsecond : (maybeToken :: ts)[1]? ≠ some .doubleColon := by
      rwa [List.getElem?_cons_succ, ← List.head?_eq_getElem?]
    exact @takeLabel_on none _ fun _ => hsecond
  have hmaybe : takeMaybe (maybeToken :: ts) = (true, ts) := by
    rw [takeMaybe, if_pos rfl]
  exact read_union_eq hlabel hmaybe

/-- A word with a `|` behind it is a variant. -/
theorem readVariants_word_pipe (text : String) (ts : List Token) :
    readVariants (variant shape) (.identifier text :: .pipe :: ts)
      = match readVariants (variant shape) ts with
        | .error stop => .error stop
        | .ok (vs, rest) => .ok (.more (.bare (.word text)) vs, rest) := by
  rw [readVariants_eq]
  rfl

theorem read_union_maybeExpansion (ts : List Token) :
    (union shape).read (maybeExpansion ++ ts)
      = match readVariants (variant shape) ts with
        | .error stop => .error stop
        | .ok (vs, rest) =>
          .ok (.mk none false
            (.more (.bare (.word "Undefined")) (.more (.bare (.word "Null")) vs)), rest) := by
  have hlabel : takeLabel (maybeExpansion ++ ts)
      = (none, .identifier "Undefined" :: .pipe :: .identifier "Null" :: .pipe :: ts) := rfl
  rw [read_union_eq hlabel rfl, readVariants_word_pipe, readVariants_word_pipe]
  cases readVariants (variant shape) ts <;> rfl

/-- Whatever follows, the same union is read, or reading stops at the same place. -/
theorem map_value_read_maybe (h : ts.head? ≠ some .doubleColon) :
    ((union shape).read (maybeToken :: ts)).map (Prod.map ExprTree.value id)
      = ((union shape).read (maybeExpansion ++ ts)).map (Prod.map ExprTree.value id) := by
  rw [read_union_maybe h, read_union_maybeExpansion]
  cases readVariants (variant shape) ts <;> rfl

end Grammar

/-! ## Walking -/

namespace Walk

/-- Two walks end with the same type expression or with the same cause, in front of the same
    lexemes and with `depth` open shapes. The places of their faults are the same if `placed`. -/
inductive EndAlike (depth : Nat) (placed : Prop) :
    Option (Except Fault TypeExpr × Cursor) → Option (Except Fault TypeExpr × Cursor) → Prop
  | read (of : TypeExpr) {c c' : Cursor} (hrest : c.rest = c'.rest) (hdepth : c.depth = depth)
      (hdepth' : c'.depth = depth) : EndAlike depth placed (some (.ok of, c)) (some (.ok of, c'))
  | stopped (cause : Cause) {span span' : Span} {c c' : Cursor} (hspan : placed → span = span')
      (hrest : c.rest = c'.rest) (hdepth : c.depth = depth) (hdepth' : c'.depth = depth) :
      EndAlike depth placed (some (.error (.at span cause), c))
        (some (.error (.at span' cause), c'))

variable {depth room : Nat}

theorem union_append (h : depth + room = nestingLimit) (front back : List Lexeme) :
    union nestingLimit ⟨front ++ back, front.length, depth⟩
      = outcome (front ++ back) depth ExprTree.value
        ((Grammar.union (Grammar.shapeAt nestingLimit room)).read (Parser.tokensOf back)) := by
  have hsuffix : Parser.tokensOf back <:+ Parser.tokensOf (front ++ back) := by
    rw [Parser.tokensOf_append]
    exact List.suffix_append _ _
  rw [← Cursor.facing_append]
  exact union_follows (followsShape h) _ _ hsuffix

theorem endAlike_read {of : TypeExpr} {placed : Prop} (front front' read rest : List Lexeme) :
    EndAlike depth placed
      (some (.ok of, .facing (front ++ (read ++ rest)) depth (Parser.tokensOf rest)))
      (some (.ok of, .facing (front' ++ (read ++ rest)) depth (Parser.tokensOf rest))) := by
  refine .read of ?_ rfl rfl
  rw [← List.append_assoc, ← List.append_assoc, Cursor.rest_facing_append,
    Cursor.rest_facing_append]

/-- What was read before the variants does not change their fault, and not its place unless that is
    the end of the lexemes. -/
theorem endAlike_stopped {read rest : List Lexeme} {cause : Cause} (front front' : List Lexeme)
    (h : Grammar.Stop.BorneOut (Parser.tokensOf read) ⟨cause, Parser.tokensOf rest⟩) :
    EndAlike depth (read ++ rest ≠ [])
      (stopped (front ++ (read ++ rest)) depth ⟨cause, Parser.tokensOf rest⟩)
      (stopped (front' ++ (read ++ rest)) depth ⟨cause, Parser.tokensOf rest⟩) := by
  rw [stopped, stopped, faultAt_append front h, faultAt_append front' h]
  refine .stopped cause ?_ ?_ rfl rfl
  · intro hne
    rw [Parser.stopOf_append hne, Parser.stopOf_append hne]
  · rw [← List.append_assoc, ← List.append_assoc, Cursor.rest_facing_append,
      Cursor.rest_facing_append]

theorem endAlike_maybe {word long ls : List Lexeme} (hroom : depth + room = nestingLimit)
    (hword : Parser.tokensOf word = [maybeToken])
    (hlong : Parser.tokensOf long = Grammar.maybeExpansion)
    (hls : (Parser.tokensOf ls).head? ≠ some .doubleColon) (front : List Lexeme) :
    EndAlike depth (ls ≠ [])
      (union nestingLimit ⟨front ++ (word ++ ls), front.length, depth⟩)
      (union nestingLimit ⟨front ++ (long ++ ls), front.length, depth⟩) := by
  have hinverts := Grammar.variant_inverts (Grammar.shapeAt_inverts nestingLimit room)
  have hwithin := Grammar.variant_stopsWithin (Grammar.shapeAt_stopsWithin nestingLimit room)
  rw [union_append hroom, union_append hroom, Parser.tokensOf_append, Parser.tokensOf_append,
    hword, hlong, List.singleton_append, Grammar.read_union_maybe hls,
    Grammar.read_union_maybeExpansion, ← List.append_assoc, ← List.append_assoc]
  cases hread : Grammar.readVariants (Grammar.variant (Grammar.shapeAt nestingLimit room))
      (Parser.tokensOf ls) with
  | ok first =>
    obtain ⟨vs, ts⟩ := first
    obtain ⟨htokens, -⟩ := Grammar.of_readVariants hinverts hread
    obtain ⟨read, rest, rfl, -, rfl⟩ := List.map_eq_append_iff.1 htokens
    exact endAlike_read (front ++ word) (front ++ long) read rest
  | error stop =>
    obtain ⟨cause, ts⟩ := stop
    obtain ⟨before, htokens, hborne⟩ :=
      (Grammar.variants_eq_error_iff.1 hread).within hinverts hwithin
    obtain ⟨read, rest, rfl, rfl, rfl⟩ := List.map_eq_append_iff.1 htokens
    exact endAlike_stopped (front ++ word) (front ++ long) hborne

/-- With `maybeToken` or with `maybeExpansion` in its place, `union` does `EndAlike`, behind any
    lexemes `front`, at any `depth` up to `nestingLimit`, and in front of any `ls` that do not begin
    with `::`: the same union or cause, with the same lexemes left and, unless `ls` is empty, at the
    same span. The reader of the grammar gives the same value in either case. -/
theorem endAlike_union_maybeExpansion {word long ls : List Lexeme} (hdepth : depth ≤ nestingLimit)
    (hword : Parser.tokensOf word = [maybeToken])
    (hlong : Parser.tokensOf long = Grammar.maybeExpansion)
    (hls : (Parser.tokensOf ls).head? ≠ some .doubleColon) (front : List Lexeme) :
    EndAlike depth (ls ≠ [])
        (union nestingLimit ⟨front ++ (word ++ ls), front.length, depth⟩)
        (union nestingLimit ⟨front ++ (long ++ ls), front.length, depth⟩) ∧
      let shape := Grammar.shapeAt nestingLimit (nestingLimit - depth)
      ((Grammar.union shape).read (Parser.tokensOf (word ++ ls))).map (Prod.map ExprTree.value id)
        = ((Grammar.union shape).read (Parser.tokensOf (long ++ ls))).map
          (Prod.map ExprTree.value id) := by
  refine ⟨endAlike_maybe (Nat.add_sub_of_le hdepth) hword hlong hls front, ?_⟩
  rw [Parser.tokensOf_append, Parser.tokensOf_append, hword, hlong, List.singleton_append]
  exact Grammar.map_value_read_maybe hls

/-- The instance behind `nestingLimit` brackets, so that no further shape may be opened, with a
    second `Maybe` and a shape behind the first. -/
theorem endAlike_union_maybeExpansion_at_limit :
    let bracket : Lexeme := ⟨.leftBracket, ⟨0, 1⟩⟩
    let front := List.replicate nestingLimit bracket
    let word : List Lexeme := [⟨maybeToken, ⟨1, 6⟩⟩]
    let long : List Lexeme := [⟨.identifier "Undefined", ⟨1, 2⟩⟩, ⟨.pipe, ⟨2, 3⟩⟩,
      ⟨.identifier "Null", ⟨3, 4⟩⟩, ⟨.pipe, ⟨4, 5⟩⟩]
    let ls : List Lexeme := [⟨maybeToken, ⟨7, 12⟩⟩, ⟨.pipe, ⟨13, 14⟩⟩,
      ⟨.identifier "Null", ⟨15, 19⟩⟩, ⟨.leftParen, ⟨19, 20⟩⟩]
    nestingLimit ≤ nestingLimit ∧ Parser.tokensOf word = [maybeToken] ∧
      Parser.tokensOf long = Grammar.maybeExpansion ∧
      (Parser.tokensOf ls).head? ≠ some .doubleColon ∧
      EndAlike nestingLimit (ls ≠ [])
        (union nestingLimit ⟨front ++ (word ++ ls), front.length, nestingLimit⟩)
        (union nestingLimit ⟨front ++ (long ++ ls), front.length, nestingLimit⟩) :=
  ⟨Nat.le_refl _, rfl, rfl, by decide,
    (endAlike_union_maybeExpansion (Nat.le_refl _) rfl rfl (by decide)
      (List.replicate nestingLimit _)).1⟩

end Walk

end TypeNotation
