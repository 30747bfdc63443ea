import TypeNotation.Fault
import TypeNotation.Grammar.Tree

set_option autoImplicit false

/-! # Reading the tokens of a specification

`Grammar.read` finds the tree that a list of tokens begins with. Each rule of the grammar has its
reader, which looks at most two tokens ahead and never goes back: a second token `::` makes the
first one a label, and a bracket behind a name is that name's shape. The readers are stacked by the
number of shapes that may still be opened inside one another: `shapeAt room` reads the parts of a
shape with what `shapeAt (room - 1)` makes of the shapes in them. -/

namespace TypeNotation.Grammar

/-- Why reading stopped, and the tokens from there on. -/
structure Stop where
  cause : Cause
  rest : List Token

/-- A reader of tokens. -/
abbrev TokenReader := Reader Token Stop

/-- What stands here is not what was expected. -/
def unexpected (expected : Expected) : List Token → Stop
  | [] => ⟨.unexpectedEnd, []⟩
  | t :: rest => ⟨.unexpected expected t.text, t :: rest⟩

/-! ## Single tokens -/

/-- Takes one given token off. -/
def expect (token : Token) : List Token → Except Stop (List Token)
  | [] => .error (unexpected (.literal token) [])
  | t :: rest => if t = token then .ok rest else .error (unexpected (.literal token) (t :: rest))

/-- Takes a label off, if the second token says that the first one is a label. -/
def takeLabel : List Token → Option Token × List Token
  | label :: .doubleColon :: rest => (some label, rest)
  | ts => (none, ts)

/-- Takes the word `Maybe` off, if it is there. -/
def takeMaybe : List Token → Bool × List Token
  | [] => (false, [])
  | t :: rest => if t = maybeToken then (true, rest) else (false, t :: rest)

/-- Takes a comma off, if it is there. -/
def takeComma : List Token → Bool × List Token
  | .comma :: rest => (true, rest)
  | ts => (false, ts)

/-- Whether a shape begins here. -/
def startsShape : List Token → Bool
  | [] => false
  | t :: _ => t.opens

@[grind →]
theorem length_of_expect {token : Token} {ts rest : List Token} (h : expect token ts = .ok rest) :
    rest.length < ts.length := by
  cases ts with
  | nil => simp [expect] at h
  | cons t ts' =>
    rw [expect] at h
    split at h
    · cases h; simp
    · simp at h

theorem length_takeLabel_le (ts : List Token) : (takeLabel ts).2.length ≤ ts.length := by
  unfold takeLabel
  split
  · simp only [List.length_cons]; omega
  · exact Nat.le_refl _

theorem length_takeMaybe_le (ts : List Token) : (takeMaybe ts).2.length ≤ ts.length := by
  unfold takeMaybe
  split
  · exact Nat.le_refl _
  · split <;> simp

theorem length_takeComma_le (ts : List Token) : (takeComma ts).2.length ≤ ts.length := by
  unfold takeComma
  split <;> simp

/-! ## Unions -/

/-- A name and perhaps a shape behind it, or a shape. -/
def readVariant (shape : TokenReader ShapeTree) (ts : List Token) :
    Except Stop (VariantTree × List Token) :=
  match ts with
  | [] => .error (unexpected .type [])
  | t :: rest =>
    match Name.ofToken? t with
    | none =>
      match shape.read (t :: rest) with
      | .error stop => .error stop
      | .ok (s, rest) => .ok (.anonymous s, rest)
    | some name =>
      if startsShape rest then
        match shape.read rest with
        | .error stop => .error stop
        | .ok (s, rest) => .ok (.shaped name s, rest)
      else .ok (.bare name, rest)

/-- A variant whose shape is read by `shape`. -/
def variant (shape : TokenReader ShapeTree) : TokenReader VariantTree where
  read := readVariant shape
  shortens {input _ _} h := by fun_cases readVariant shape input <;> grind [readVariant]

/-- Variants as long as a `|` stands behind one. -/
def readVariants (variant : TokenReader VariantTree) (ts : List Token) :
    Except Stop (VariantsTree × List Token) :=
  match h : variant.read ts with
  | .error stop => .error stop
  | .ok (v, .pipe :: rest) =>
    have := Nat.lt_of_succ_lt (variant.shortens h)
    match readVariants variant rest with
    | .error stop => .error stop
    | .ok (vs, rest) => .ok (.more v vs, rest)
  | .ok (v, rest) => .ok (.last v, rest)
termination_by ts.length

/-- Variants that are read by `variant`, with a `|` between them. -/
def variants (variant : TokenReader VariantTree) : TokenReader VariantsTree where
  read := readVariants variant
  shortens {input rest vs} h := by
    fun_induction readVariants variant input generalizing vs <;> grind

/-- A label, the word `Maybe` and variants. -/
def readUnion (variants : TokenReader VariantsTree) (ts : List Token) :
    Except Stop (ExprTree × List Token) :=
  let (label, ts) := takeLabel ts
  let (maybe, ts) := takeMaybe ts
  match variants.read ts with
  | .error stop => .error stop
  | .ok (vs, rest) => .ok (.mk label maybe vs, rest)

/-- A union whose shapes are read by `shape`. -/
def union (shape : TokenReader ShapeTree) : TokenReader ExprTree where
  read := readUnion (variants (variant shape))
  shortens h := by
    grind [readUnion, length_takeLabel_le, length_takeMaybe_le]

/-! ## Shapes -/

/-- The slots of a tuple and its closing parenthesis. -/
def readSlots (union : TokenReader ExprTree) (ts : List Token) :
    Except Stop (SlotsTree × List Token) :=
  match h : union.read ts with
  | .error stop => .error stop
  | .ok (of, rest) =>
    have := union.shortens h
    have := length_takeComma_le rest
    match _taken : takeComma rest with
    | (_, []) => .error ⟨.unexpectedEnd, []⟩
    | (comma, .rightParen :: rest) => .ok (.last of comma, rest)
    | (comma, rest) =>
      match readSlots union rest with
      | .error stop => .error stop
      | .ok (slots, rest) => .ok (.more of comma slots, rest)
termination_by ts.length
decreasing_by grind

/-- The fields of a record and its closing brace. -/
def readFields (union : TokenReader ExprTree) (ts : List Token) :
    Except Stop (FieldsTree × List Token) :=
  match ts with
  | .ellipsis :: rest =>
    match expect .rightBrace rest with
    | .error stop => .error stop
    | .ok rest => .ok (.ellipsis, rest)
  | .identifier key :: rest =>
    match h : expect .colon rest with
    | .error stop => .error stop
    | .ok rest' =>
      have := length_of_expect h
      match h : union.read rest' with
      | .error stop => .error stop
      | .ok (of, rest) =>
        have := union.shortens h
        have := length_takeComma_le rest
        match _taken : takeComma rest with
        | (_, []) => .error ⟨.unexpectedEnd, []⟩
        | (comma, .rightBrace :: rest) => .ok (.last key of comma, rest)
        | (comma, rest) =>
          match readFields union rest with
          | .error stop => .error stop
          | .ok (fields, rest) => .ok (.more key of comma fields, rest)
  | ts => .error (unexpected .text ts)
termination_by ts.length
decreasing_by grind

/-- A bracket, what belongs inside it, and the bracket that closes it. -/
def readShape (union : TokenReader ExprTree) : List Token → Except Stop (ShapeTree × List Token)
  | .leftBracket :: .rightBracket :: rest => .error ⟨.emptyArray, .rightBracket :: rest⟩
  | .leftParen :: .rightParen :: rest => .error ⟨.emptyTuple, .rightParen :: rest⟩
  | .leftBracket :: ts =>
    match union.read ts with
    | .error stop => .error stop
    | .ok (of, rest) =>
      match expect .rightBracket rest with
      | .error stop => .error stop
      | .ok rest => .ok (.array of, rest)
  | .leftParen :: ts =>
    match readSlots union ts with
    | .error stop => .error stop
    | .ok (of, rest) => .ok (.tuple of, rest)
  | .leftBrace :: ts =>
    match readFields union ts with
    | .error stop => .error stop
    | .ok (of, rest) => .ok (.fields of, rest)
  | ts => .error (unexpected .type ts)

@[grind →]
theorem length_of_readSlots (union : TokenReader ExprTree) {ts rest : List Token}
    {slots : SlotsTree} (h : readSlots union ts = .ok (slots, rest)) :
    rest.length < ts.length := by
  fun_induction readSlots union ts generalizing slots <;> grind

@[grind →]
theorem length_of_readFields (union : TokenReader ExprTree) {ts rest : List Token}
    {fields : FieldsTree} (h : readFields union ts = .ok (fields, rest)) :
    rest.length < ts.length := by
  fun_induction readFields union ts generalizing fields <;> grind

/-- A shape whose unions are read by `union`. -/
def shape (union : TokenReader ExprTree) : TokenReader ShapeTree where
  read := readShape union
  shortens {input _ _} h := by fun_cases readShape union input <;> grind [readShape]

/-- A shape where none may be opened any more. -/
def noShape (limit : Nat) : TokenReader ShapeTree where
  read ts :=
    if startsShape ts then .error ⟨.tooDeep limit, ts⟩ else .error (unexpected .type ts)
  shortens h := by grind

/-- A shape where `room` shapes may be open at once, of `limit` at the outermost place. -/
def shapeAt (limit : Nat) : Nat → TokenReader ShapeTree
  | 0 => noShape limit
  | room + 1 => shape (union (shapeAt limit room))

/-- The tree that some tokens begin with, and the tokens behind it. -/
def read (limit : Nat) (ts : List Token) : Except Stop (ExprTree × List Token) :=
  match ts with
  | .doubleColon :: rest => .error ⟨.missingLabel, .doubleColon :: rest⟩
  | ts => (union (shapeAt limit limit)).read ts

end TypeNotation.Grammar
