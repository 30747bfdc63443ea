import TypeNotation.Parser
import TypeNotation.Proofs.Parser.Accept

set_option autoImplicit false

/-! # Walking over lexemes

The grammar can also be read by a cursor that is moved over a list of lexemes and counts the shapes
that are open. Such a walk has a state of its own, and whatever it has counted when a fault ends it
is still there when the next walk begins. The walk is written as it would run: one function for each
rule, and nothing but the cursor says how far reading has come. That a walk ends is not part of it:
a loop that stays where it is has no result. -/

namespace TypeNotation

/-- A place in a list of lexemes, and how many shapes are open there. -/
structure Cursor where
  lexemes : List Lexeme
  current : Nat
  depth : Nat

namespace Cursor

/-- The cursor in front of all lexemes, with no shape open. -/
def ofLexemes (ls : List Lexeme) : Cursor :=
  ⟨ls, 0, 0⟩

/-- The lexemes not yet read. -/
def rest (c : Cursor) : List Lexeme :=
  c.lexemes.drop c.current

/-- The token that stands some lexemes ahead. -/
def token? (c : Cursor) (ahead : Nat) : Option Token :=
  c.lexemes[c.current + ahead]?.map (·.token)

/-- The place of the next lexeme, or the empty place behind the last one. -/
def place (c : Cursor) : Span :=
  match c.lexemes[c.current]? with
  | some l => l.span
  | none => .point (Parser.stopOf c.lexemes)

/-- The cursor behind the next lexeme, or where it is if there is none. -/
def advance (c : Cursor) : Cursor :=
  if c.current < c.lexemes.length then { c with current := c.current + 1 } else c

end Cursor

/-- A walk moves a cursor and gives a result or a fault, if it ever ends. -/
abbrev Walk := ExceptT Fault (StateT Cursor Option)

namespace Walk

/-! ## Single tokens -/

/-- A fault with the cause `cause` at the next lexeme, or at the empty place behind the last one. -/
def fail {α : Type} (cause : Cause) : Walk α := do
  throw (.at (← get).place cause)

/-- The next token, which is not passed. -/
def next : Walk Token := do
  match (← get).token? 0 with
  | some t => return t
  | none => fail .unexpectedEnd

/-- The fault that something else than the next token was expected, or that there is no next token.
    -/
def unexpected {α : Type} (expected : Expected) : Walk α := do
  match (← get).token? 0 with
  | some t => fail (.unexpected expected t.text)
  | none => fail .unexpectedEnd

/-- Passes the next token, whatever it is. -/
def advance : Walk Unit :=
  modify Cursor.advance

/-- Passes a token if it is the next one, and says whether it was. -/
def accept (t : Token) : Walk Bool := do
  if (← get).token? 0 = some t then
    advance
    return true
  else return false

/-- Passes the token `t`. If another one is next, the cursor stays in front of it. -/
def expect (t : Token) : Walk Unit := do
  if (← next) = t then advance else unexpected (.literal t)

/-- Passes a word and gives its text. If another token is next, the cursor stays in front of it. -/
def key : Walk String := do
  match ← next with
  | .identifier text =>
    advance
    return text
  | _ => unexpected .text

/-! ## Parts of the rules -/

/-- Passes a label and its `::`, if the second token says that there is one. -/
def label : Walk Unit := do
  let _ ← next
  if (← get).token? 1 = some .doubleColon then
    advance
    advance

/-- Passes the word `Maybe` if it is the next token, and says whether it was. -/
def maybe : Walk Bool := do
  if (← next) = maybeToken then
    advance
    return true
  else return false

/-- Keeps a variant behind `of` unless its name is one of `seen`, the names of the bare variants
    before it. -/
def keep (seen : List String) (of : TypeExpr) (v : Variant) : List String × TypeExpr :=
  match v.name with
  | none => (seen, of ++ [v])
  | some name =>
    (if v.isBare then seen.insert name else seen, if name ∈ seen then of else of ++ [v])

/-- Passes a bracket. If there is nothing inside it, both brackets are to blame. -/
def opening (opener closer : Token) (cause : Cause) : Walk Unit := do
  let start := (← get).place.start
  expect opener
  if (← next) = closer then
    throw (.at ⟨start, (← get).place.stop⟩ cause)

/-! ## Loops -/

/-- What a round of a loop comes to: a further round or a result. -/
inductive Round (σ α : Type) where
  | again (s : σ)
  | done (a : α)

/-- Goes from round to round as long as each passes a lexeme. A round that asks for another one and
    has passed none has nothing behind it, for it might be gone for ever. -/
def loop {σ α : Type} (round : σ → Walk (Round σ α)) (s : σ) : Walk α := fun c =>
  match round s c with
  | some (.ok (.again s), c') =>
    if c'.rest.length < c.rest.length then loop round s c' else none
  | some (.ok (.done a), c') => some (.ok a, c')
  | some (.error fault, c') => some (.error fault, c')
  | none => none
termination_by c => c.rest.length

/-! ## The rules

Each rule is given `inner`, what walks over a shape inside the one that is open, if one begins at
the cursor. -/

namespace Rules

variable (inner : Walk (Option Shape))

/-- A name with or without a shape directly behind it, or a shape. -/
def variant : Walk Variant := do
  match Name.ofToken? (← next) with
  | some name =>
    advance
    match ← inner with
    | some shape => return .withName name.text (.anonymous shape)
    | none => return .named name.text
  | none =>
    match ← inner with
    | some shape => return .anonymous shape
    | none => unexpected .type

/-- A variant is kept, and a `|` behind it asks for another one. -/
def variantRound (kept : List String × TypeExpr) :
    Walk (Round (List String × TypeExpr) TypeExpr) := do
  let v ← variant inner
  let kept := keep kept.1 kept.2 v
  if ← accept .pipe then return .again kept else return .done kept.2

/-- Variants as long as a `|` stands behind one. -/
def variants (seen : List String) (of : TypeExpr) : Walk TypeExpr :=
  loop (variantRound inner) (seen, of)

/-- A label, the word `Maybe` and variants. The names that `Maybe` stands for count as seen. -/
def union : Walk TypeExpr := do
  label
  let maybe ← maybe
  variants inner (if maybe then ["Null", "Undefined"] else []) (maybeVariants maybe)

/-- A union between brackets. -/
def array : Walk Shape := do
  opening .leftBracket .rightBracket .emptyArray
  let of ← union inner
  expect .rightBracket
  return .array of

/-- A slot with or without a comma behind it. A parenthesis in front of the cursor ends the loop and
    is not passed. -/
def slotRound (before : List TypeExpr) : Walk (Round (List TypeExpr) (List TypeExpr)) := do
  let of ← union inner
  let _ ← accept .comma
  if (← next) = .rightParen then return .done (before ++ [of]) else return .again (before ++ [of])

/-- The slots of a tuple behind some slots, and its closing parenthesis. -/
def slots (before : List TypeExpr) : Walk (List TypeExpr) := do
  let of ← loop (slotRound inner) before
  expect .rightParen
  return of

/-- Slots between parentheses. -/
def tuple : Walk Shape := do
  opening .leftParen .rightParen .emptyTuple
  let of ← slots inner []
  return .tuple of

/-- Three dots, which end the loop, or a field with or without a comma behind it. A brace in front
    of the cursor ends the loop and is not passed. -/
def fieldRound (before : List Field) : Walk (Round (List Field) (List Field × Bool)) := do
  if ← accept .ellipsis then return .done (before, true)
  else
    let key ← key
    expect .colon
    let of ← union inner
    let _ ← accept .comma
    let before := Field.insert (.mk key of) before
    if (← next) = .rightBrace then return .done (before, false) else return .again before

/-- The fields of a record behind some fields, and its closing brace. -/
def someFields (before : List Field) : Walk (List Field × Bool) := do
  let found ← loop (fieldRound inner) before
  expect .rightBrace
  return found

/-- Fields between braces. -/
def fields : Walk Shape := do
  expect .leftBrace
  let (of, subset) ← someFields inner []
  return .fields of subset

/-- The shape that `opener` opens. -/
def shape (opener : Token) : Walk Shape :=
  match opener with
  | .leftBracket => array inner
  | .leftParen => tuple inner
  | _ => fields inner

/-- A shape, if one begins here. It is counted while it is open, and no longer, also when it ends
    with a fault. -/
def shape? (limit : Nat) : Walk (Option Shape) := do
  let c ← get
  match c.token? 0 with
  | none => return none
  | some t =>
    if t.opens then
      if limit ≤ c.depth then fail (.tooDeep limit)
      else
        -- the depth goes down again before a fault is passed on
        let found ← fun c => do
          let (found, c) ← shape inner t { c with depth := c.depth + 1 }
          return (.ok found, { c with depth := c.depth - 1 })
        match found with
        | .ok shape => return some shape
        | .error fault => throw fault
    else return none

end Rules

/-- What walks over a shape, with so many levels at which one may begin. No walk ends below the last
    of them. -/
def shapeTo (limit : Nat) : Nat → Walk (Option Shape)
  | 0 => fun _ => none
  | levels + 1 => Rules.shape? (shapeTo limit levels) limit

/-- No more than `limit` shapes are open at once, and one level more is where a further one is
    found to be too many. -/
def shape? (limit : Nat) : Walk (Option Shape) :=
  shapeTo limit (limit + 1)

/-- `Rules.variant` with no more than `limit` shapes open at once. -/
def variant (limit : Nat) : Walk Variant :=
  Rules.variant (shape? limit)

/-- `Rules.union` with no more than `limit` shapes open at once. -/
def union (limit : Nat) : Walk TypeExpr :=
  Rules.union (shape? limit)

/-- A whole type expression. Only here a `::` without a label is more than a token that does not
    fit. -/
def parse (limit : Nat) : Walk TypeExpr := do
  if (← next) = .doubleColon then fail .missingLabel else union limit

end Walk

end TypeNotation
