import TypeNotation.Json.Scalar

set_option autoImplicit false

/-! # Reading JSON

A document is read from left to right and the first flaw decides. Arrays and objects may be nested
up to a limit: the readers are stacked by how many more may be opened. The readers of arrays and
objects leave open what is made of an item or a member, so that a document of known form is read by
the same rules. -/

namespace TypeNotation.Json

/-- How many arrays and objects may be open inside one another. -/
def depthLimit : Nat := 127

/-! ## Arrays -/

section

variable {α : Type}

/-- Reads at least one item, and the bracket behind the last. -/
def readSomeItems (item : CharReader α) (cs : List Char) : Except Flaw (List α × List Char) :=
  match h : item.read cs with
  | .error flaw => .error flaw
  | .ok (a, rest) =>
    have := item.shortens h
    have := length_skipRoom_le rest
    match _room : skipRoom rest with
    | ']' :: rest => .ok ([a], rest)
    | ',' :: rest =>
      match readSomeItems item rest with
      | .error flaw => .error flaw
      | .ok (more, rest) => .ok (a :: more, rest)
    | rest => .error (misfit rest)
termination_by cs.length
decreasing_by grind

/-- Reads the items of an array behind its opening bracket, and the closing one. -/
def readItems (item : CharReader α) (cs : List Char) : Except Flaw (List α × List Char) :=
  match skipRoom cs with
  | [] => .error .ended
  | ']' :: rest => .ok ([], rest)
  | cs => readSomeItems item cs

@[grind →]
theorem length_of_readSomeItems {item : CharReader α} {cs rest : List Char} {items : List α}
    (h : readSomeItems item cs = .ok (items, rest)) : rest.length < cs.length := by
  fun_induction readSomeItems item cs generalizing items <;> grind

@[grind →]
theorem length_of_readItems {item : CharReader α} {cs rest : List Char} {items : List α}
    (h : readItems item cs = .ok (items, rest)) : rest.length < cs.length := by
  have := length_skipRoom_le cs
  fun_cases readItems item cs <;> grind [readItems]

/-! ## Objects -/

/-- Reads the value of a member, or whatever else is made of it, behind the key: `before` are the
    members read so far, the last one first. -/
abbrev MemberReader (α : Type) := (before : List α) → (key : String) → CharReader α

/-- Reads a key. -/
def readKey (cs : List Char) : Except Flaw (String × List Char) :=
  match skipRoom cs with
  | '"' :: rest =>
    match readChars rest with
    | .error flaw => .error flaw
    | .ok (key, rest) => .ok (String.ofList key, rest)
  | cs => .error (misfit cs)

@[grind →]
theorem length_of_readKey {cs rest : List Char} {key : String}
    (h : readKey cs = .ok (key, rest)) : rest.length < cs.length := by
  have := length_skipRoom_le cs
  fun_cases readKey cs <;> grind [readKey]

/-- Reads at least one member, and the brace behind the last. -/
def readSomeMembers (member : MemberReader α) (before : List α) (cs : List Char) :
    Except Flaw (List α × List Char) :=
  match _key : readKey cs with
  | .error flaw => .error flaw
  | .ok (key, rest) =>
    match _h : (member before key).read rest with
    | .error flaw => .error flaw
    | .ok (a, rest') =>
      have := length_skipRoom_le rest'
      match _room : skipRoom rest' with
      | '}' :: rest => .ok ([a], rest)
      | ',' :: rest =>
        match readSomeMembers member (a :: before) rest with
        | .error flaw => .error flaw
        | .ok (more, rest) => .ok (a :: more, rest)
      | rest => .error (misfit rest)
termination_by cs.length
decreasing_by grind

/-- Reads the members of an object behind its opening brace, and the closing one. -/
def readMembers (member : MemberReader α) (cs : List Char) : Except Flaw (List α × List Char) :=
  match skipRoom cs with
  | [] => .error .ended
  | '}' :: rest => .ok ([], rest)
  | cs => readSomeMembers member [] cs

@[grind →]
theorem length_of_readSomeMembers {member : MemberReader α} {before items : List α}
    {cs rest : List Char} (h : readSomeMembers member before cs = .ok (items, rest)) :
    rest.length < cs.length := by
  fun_induction readSomeMembers member before cs generalizing items <;> grind

@[grind →]
theorem length_of_readMembers {member : MemberReader α} {cs rest : List Char} {items : List α}
    (h : readMembers member cs = .ok (items, rest)) : rest.length < cs.length := by
  have := length_skipRoom_le cs
  fun_cases readMembers member cs <;> grind [readMembers]

/-- Reads a colon and what `value` reads behind it. -/
def readBehindColon (value : CharReader α) (cs : List Char) : Except Flaw (α × List Char) :=
  match skipRoom cs with
  | ':' :: rest => value.read rest
  | cs => .error (misfit cs)

/-- `readBehindColon value` as a reader. -/
def behindColon (value : CharReader α) : CharReader α where
  read := readBehindColon value
  shortens {cs _ _} h := by
    have := length_skipRoom_le cs
    fun_cases readBehindColon value cs <;> grind [readBehindColon]

end

/-! ## Values -/

/-- A member with its value. -/
def plainMember (value : CharReader Json) : MemberReader (String × Json) :=
  fun _ key => behindColon (value.map (key, ·))

/-- Reads a value whose parts `inner` reads. -/
def readValue (inner : CharReader Json) (cs : List Char) : Except Flaw (Json × List Char) :=
  match skipRoom cs with
  | '[' :: rest =>
    match readItems inner rest with
    | .error flaw => .error flaw
    | .ok (items, rest) => .ok (array items, rest)
  | '{' :: rest =>
    match readMembers (plainMember inner) rest with
    | .error flaw => .error flaw
    | .ok (members, rest) => .ok (object members, rest)
  | cs => readScalar cs

/-- Reads a value where no array and no object may be opened any more. -/
def readFlat (cs : List Char) : Except Flaw (Json × List Char) :=
  match skipRoom cs with
  | '[' :: _ => .error .malformed
  | '{' :: _ => .error .malformed
  | cs => readScalar cs

@[grind →]
theorem length_of_readValue {inner : CharReader Json} {cs rest : List Char} {value : Json}
    (h : readValue inner cs = .ok (value, rest)) : rest.length < cs.length := by
  have := length_skipRoom_le cs
  fun_cases readValue inner cs <;> grind [readValue]

@[grind →]
theorem length_of_readFlat {cs rest : List Char} {value : Json}
    (h : readFlat cs = .ok (value, rest)) : rest.length < cs.length := by
  have := length_skipRoom_le cs
  fun_cases readFlat cs <;> grind [readFlat]

/-- A value in which `room` arrays and objects may be open at once. -/
def valueAt : Nat → CharReader Json
  | 0 => ⟨readFlat, length_of_readFlat⟩
  | room + 1 => ⟨readValue (valueAt room), length_of_readValue⟩

/-- Reads a whole text with nothing but room behind what `value` reads. -/
def readDocument {α : Type} (value : CharReader α) (text : String) : Except Flaw α :=
  match value.read text.toList with
  | .error flaw => .error flaw
  | .ok (a, rest) => if skipRoom rest = [] then .ok a else .error .malformed

/-- The value that a text spells. -/
def read (text : String) : Except Flaw Json :=
  readDocument (valueAt depthLimit) text

end TypeNotation.Json
