import TypeNotation.Basic
import TypeNotation.Json
import TypeNotation.Token

set_option autoImplicit false

/-! # What is wrong with a specification

A `Cause` says what is wrong, a `Fault` also where. A `Refusal` is the answer to a whole text: it
was rejected before it was read, or reading stopped at some token and the tokens from there on
remain. The wording of all of them is here. -/

namespace TypeNotation

/-- What could have stood where something else was found. -/
inductive Expected where
  /-- Any word. -/
  | text
  /-- The beginning of a type. -/
  | type
  | literal (token : Token)
deriving DecidableEq

/-- What is wrong. -/
inductive Cause where
  | unexpectedEnd
  | unexpected (expected : Expected) (found : String)
  /-- The text speaks of functions, for which there is no specification. -/
  | functionType
  /-- A label's `::` without a label. -/
  | missingLabel
  | emptyArray
  | emptyTuple
  /-- More shapes inside one another than `limit`. -/
  | tooDeep (limit : Nat)
deriving DecidableEq

/-- The wording of a cause. -/
def Cause.message : Cause → String
  | unexpectedEnd => "Unexpected end of input."
  | unexpected .text found => s!"Expected text, got '{found}' instead."
  | unexpected .type found => s!"Unexpected character: {found}"
  | unexpected (.literal token) found => s!"Expected '{token.text}', got '{found}' instead."
  | functionType =>
    "Function types are not supported. To validate that something is a function, you may use " ++
      "'Function'."
  | missingLabel => "No comment before comment separator '::' found."
  | emptyArray => "Must specify type of Array - eg. [Type], got [] instead."
  | emptyTuple => "Tuple must be of at least length 1 - eg. (Type), got () instead."
  | tooDeep limit => s!"Structures may be nested at most {limit} levels deep."

/-- What is wrong, and where. -/
inductive Fault where
  /-- There is no text at all, hence no place in it. -/
  | emptyInput
  | at (span : Span) (cause : Cause)
deriving DecidableEq

namespace Fault

/-- The wording of a fault, which does not say where it is. -/
def message : Fault → String
  | emptyInput => "No type specified."
  | .at _ cause => cause.message

/-- The place of a fault. `emptyInput` has none. -/
def span? : Fault → Option Span
  | emptyInput => none
  | .at span _ => some span

end Fault

/-- Some spellings as they are shown in a message. -/
def listed (spellings : List String) : String :=
  (Json.ofStrings spellings).compact

/-- Why a text is no specification. -/
inductive Refusal where
  | rejected (fault : Fault)
  /-- Reading stopped; `remaining` spells the tokens that were not read. -/
  | stopped (fault : Fault) (remaining : List String) (input : String)
deriving DecidableEq

namespace Refusal

/-- The fault for which a text is refused. -/
def fault : Refusal → Fault
  | rejected fault => fault
  | stopped fault _ _ => fault

/-- The spellings of the tokens from where reading stopped. A text that is rejected was not read,
    and leaves none. -/
def remaining : Refusal → List String
  | rejected _ => []
  | stopped _ remaining _ => remaining

/-- The wording of a refusal: that of its fault, and if reading stopped, also the tokens that remain
    and the text. -/
def message : Refusal → String
  | rejected fault => fault.message
  | stopped fault remaining input =>
    s!"{fault.message} - Remaining tokens: {listed remaining} - Initial input: '{input}'"

end Refusal

end TypeNotation
