import TypeNotation.Json.Scalar

set_option autoImplicit false

/-! # One writer for both styles

`compactChars` and `prettyChars` put the same parts in the same order and differ in the room that
they leave around them. `Style.chars` is that writer with the room as a parameter, so that what is
read back from it is read back from both. -/

namespace TypeNotation.Json

/-- Nothing but room. -/
def AllRoom (cs : List Char) : Prop :=
  ∀ c ∈ cs, isRoom c = true

/-- How much room a writer leaves. -/
structure Style where
  /-- The room before each part at some level, and before the bracket behind the parts. -/
  gap : Nat → List Char
  /-- The room between a colon and the value behind it. -/
  afterColon : List Char
  gap_room : ∀ level, AllRoom (gap level)
  afterColon_room : AllRoom afterColon

namespace Style

variable (style : Style)

/-- What follows a part: a comma before each further part, and the closing bracket. -/
def further (level : Nat) (closing : Char) : List (List Char) → List Char
  | [] => style.gap level ++ [closing]
  | part :: rest => ',' :: (style.gap (level + 1) ++ part ++ further level closing rest)

/-- What follows an opening bracket: the parts, and the closing bracket. -/
def inside (level : Nat) (closing : Char) : List (List Char) → List Char
  | [] => [closing]
  | part :: rest => style.gap (level + 1) ++ part ++ style.further level closing rest

mutual

/-- A value whose closing bracket stands at `level`. -/
def chars (level : Nat) : Json → List Char
  | .array items => '[' :: style.inside level ']' (itemTexts (level + 1) items)
  | .object members => '{' :: style.inside level '}' (memberTexts (level + 1) members)
  | value => scalarChars value

/-- The text of each item, at `level`. -/
def itemTexts (level : Nat) : List Json → List (List Char)
  | [] => []
  | item :: rest => chars level item :: itemTexts level rest

/-- The text of each member, at `level`. -/
def memberTexts (level : Nat) : List (String × Json) → List (List Char)
  | [] => []
  | (key, value) :: rest =>
    (stringChars key ++ ':' :: (style.afterColon ++ chars level value)) :: memberTexts level rest

end

/-- What stands behind the key of a member. -/
def behindKey (level : Nat) (value : Json) : List Char :=
  ':' :: (style.afterColon ++ style.chars level value)

theorem itemTexts_eq_map (level : Nat) (items : List Json) :
    style.itemTexts level items = items.map (style.chars level) := by
  induction items with
  | nil => rfl
  | cons item rest ih => rw [itemTexts, ih, List.map_cons]

theorem memberTexts_eq_map (level : Nat) (members : List (String × Json)) :
    style.memberTexts level members
      = members.map fun m => stringChars m.1 ++ style.behindKey level m.2 := by
  induction members with
  | nil => rfl
  | cons member rest ih =>
    rw [memberTexts, ih, List.map_cons]
    rfl

/-! ## Without room -/

/-- The style without any room. -/
def tight : Style where
  gap _ := []
  afterColon := []
  gap_room := by simp [AllRoom]
  afterColon_room := by simp [AllRoom]

theorem compactItems_more (item next : Json) (rest : List Json) :
    compactItems (item :: next :: rest)
      = item.compactChars ++ ',' :: compactItems (next :: rest) := by
  rw [compactItems]
  exact List.cons_ne_nil next rest

theorem compactMembers_more (key : String) (value : Json) (next : String × Json)
    (rest : List (String × Json)) :
    compactMembers ((key, value) :: next :: rest)
      = stringChars key ++ ':' :: value.compactChars ++ ',' :: compactMembers (next :: rest) := by
  rw [compactMembers]
  exact List.cons_ne_nil next rest

theorem inside_tight_one (level : Nat) (closing : Char) (part : List Char) :
    tight.inside level closing [part] = part ++ [closing] :=
  rfl

theorem inside_tight_more (level : Nat) (closing : Char) (part next : List Char)
    (rest : List (List Char)) :
    tight.inside level closing (part :: next :: rest)
      = part ++ ',' :: tight.inside level closing (next :: rest) :=
  rfl

mutual

theorem chars_tight (level : Nat) (value : Json) :
    tight.chars level value = value.compactChars := by
  cases value with
  | array items => rw [chars, compactChars, inside_tight_items level items, List.cons_append]
  | object members =>
    rw [chars, compactChars, inside_tight_members level members, List.cons_append]
  | null => rfl
  | bool b => rfl
  | natural n => rfl
  | decimal spelling => rfl
  | string s => rfl

theorem inside_tight_items (level : Nat) (items : List Json) :
    tight.inside level ']' (tight.itemTexts (level + 1) items) = compactItems items ++ [']'] := by
  match items with
  | [] => rfl
  | [item] =>
    rw [itemTexts, itemTexts, inside_tight_one, chars_tight (level + 1) item, compactItems]
  | item :: next :: rest =>
    have ih := inside_tight_items level (next :: rest)
    rw [itemTexts] at ih
    rw [itemTexts, itemTexts, inside_tight_more, ih, chars_tight (level + 1) item,
      compactItems_more, List.append_assoc, List.cons_append]

theorem inside_tight_members (level : Nat) (members : List (String × Json)) :
    tight.inside level '}' (tight.memberTexts (level + 1) members)
      = compactMembers members ++ ['}'] := by
  match members with
  | [] => rfl
  | [(key, value)] =>
    rw [memberTexts, memberTexts, inside_tight_one, chars_tight (level + 1) value, compactMembers]
    rfl
  | (key, value) :: (key', value') :: rest =>
    have ih := inside_tight_members level ((key', value') :: rest)
    rw [memberTexts] at ih
    rw [memberTexts, memberTexts, inside_tight_more, ih, chars_tight (level + 1) value,
      compactMembers_more]
    simp [tight]

end

/-! ## On lines -/

/-- The style that gives every part a line of its own. -/
def lined : Style where
  gap := newline
  afterColon := [' ']
  gap_room level := by simp [AllRoom, newline, isRoom]
  afterColon_room := by simp [AllRoom, isRoom]

mutual

theorem chars_lined (level : Nat) (value : Json) :
    lined.chars level value = value.prettyChars level := by
  match value with
  | .array [] => rfl
  | .array (item :: rest) =>
    rw [chars, prettyChars, itemTexts, inside, further_lined_items level rest,
      chars_lined (level + 1) item]
    simp [lined]
  | .object [] => rfl
  | .object ((key, value) :: rest) =>
    rw [chars, prettyChars, memberTexts, inside, further_lined_members level rest,
      chars_lined (level + 1) value]
    simp [lined]
  | .null => rfl
  | .bool b => rfl
  | .natural n => rfl
  | .decimal spelling => rfl
  | .string s => rfl

theorem further_lined_items (level : Nat) (items : List Json) :
    lined.further level ']' (lined.itemTexts (level + 1) items)
      = prettyItems (level + 1) items ++ newline level ++ [']'] := by
  cases items with
  | nil => rfl
  | cons item rest =>
    rw [itemTexts, further, further_lined_items level rest, chars_lined (level + 1) item,
      prettyItems]
    simp [lined]

theorem further_lined_members (level : Nat) (members : List (String × Json)) :
    lined.further level '}' (lined.memberTexts (level + 1) members)
      = prettyMembers (level + 1) members ++ newline level ++ ['}'] := by
  match members with
  | [] => rfl
  | (key, value) :: rest =>
    rw [memberTexts, further, further_lined_members level rest, chars_lined (level + 1) value,
      prettyMembers]
    simp [lined]

end

end Style

/-! ## The two texts -/

theorem compact_eq (value : Json) : value.compact = String.ofList (Style.tight.chars 0 value) := by
  rw [compact, Style.chars_tight]

theorem pretty_eq (value : Json) : value.pretty = String.ofList (Style.lined.chars 0 value) := by
  rw [pretty, Style.chars_lined]

end TypeNotation.Json
