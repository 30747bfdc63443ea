import TypeNotation.Json

set_option autoImplicit false

/-! # How deep a JSON value is

`Json.depth` counts the arrays and objects that lie inside one another, which is what the readers
of `valueAt` limit. `Json.Numberless` leaves numbers out: of all values, only the end of a number
is seen by what follows it. -/

namespace TypeNotation.Json

mutual

/-- The number of arrays and objects that lie inside one another where most do. -/
def depth : Json → Nat
  | array items => itemsDepth items + 1
  | object members => membersDepth members + 1
  | _ => 0

/-- The greatest `depth` of an item. -/
def itemsDepth : List Json → Nat
  | [] => 0
  | item :: rest => max item.depth (itemsDepth rest)

/-- The greatest `depth` of the value of a member. -/
def membersDepth : List (String × Json) → Nat
  | [] => 0
  | (_, value) :: rest => max value.depth (membersDepth rest)

end

theorem itemsDepth_le_iff {items : List Json} {n : Nat} :
    itemsDepth items ≤ n ↔ ∀ item ∈ items, item.depth ≤ n := by
  induction items with
  | nil => simp [itemsDepth]
  | cons item rest ih => rw [itemsDepth, Nat.max_le, ih, List.forall_mem_cons]

theorem all_depth_le (items : List Json) (n : Nat) :
    (items.all fun item => item.depth ≤ n) = decide (itemsDepth items ≤ n) := by
  simp only [itemsDepth_le_iff, List.all_eq]
  simp

theorem membersDepth_le_iff {members : List (String × Json)} {n : Nat} :
    membersDepth members ≤ n ↔ ∀ m ∈ members, m.2.depth ≤ n := by
  induction members with
  | nil => simp [membersDepth]
  | cons m rest ih => rw [membersDepth, Nat.max_le, ih, List.forall_mem_cons]

theorem all_depth_le_members (members : List (String × Json)) (n : Nat) :
    (members.all fun m => m.2.depth ≤ n) = decide (membersDepth members ≤ n) := by
  simp only [membersDepth_le_iff, List.all_eq]
  simp

/-- An array of objects is two levels deeper than what is in the objects. -/
theorem all_membersDepth_le (objects : List (List (String × Json))) (n : Nat) :
    (objects.all fun members => membersDepth members ≤ n)
      = decide ((array (objects.map object)).depth ≤ n + 2) := by
  simp only [depth, Nat.add_le_add_iff_right, itemsDepth_le_iff, List.forall_mem_map, List.all_eq]
  simp

mutual

/-- A value in which no number occurs. -/
def Numberless : Json → Prop
  | natural _ | decimal _ => False
  | array items => ItemsNumberless items
  | object members => MembersNumberless members
  | _ => True

/-- No number occurs in an item. -/
def ItemsNumberless : List Json → Prop
  | [] => True
  | item :: rest => item.Numberless ∧ ItemsNumberless rest

/-- No number occurs in the value of a member. -/
def MembersNumberless : List (String × Json) → Prop
  | [] => True
  | (_, value) :: rest => value.Numberless ∧ MembersNumberless rest

end

theorem itemsNumberless_iff {items : List Json} :
    ItemsNumberless items ↔ ∀ item ∈ items, item.Numberless := by
  induction items with
  | nil => simp [ItemsNumberless]
  | cons item rest ih => rw [ItemsNumberless, ih, List.forall_mem_cons]

theorem membersNumberless_iff {members : List (String × Json)} :
    MembersNumberless members ↔ ∀ m ∈ members, m.2.Numberless := by
  induction members with
  | nil => simp [MembersNumberless]
  | cons m rest ih => rw [MembersNumberless, ih, List.forall_mem_cons]

/-- A value without parts that is not a number. -/
theorem eq_of_depth_eq_zero {value : Json} (hdepth : value.depth = 0) (h : value.Numberless) :
    value = null ∨ (∃ b, value = bool b) ∨ ∃ s, value = string s := by
  cases value with
  | null => exact .inl rfl
  | bool b => exact .inr (.inl ⟨b, rfl⟩)
  | string s => exact .inr (.inr ⟨s, rfl⟩)
  | natural n => exact absurd h (by simp [Numberless])
  | decimal spelling => exact absurd h (by simp [Numberless])
  | array items => exact absurd hdepth (by simp [depth])
  | object members => exact absurd hdepth (by simp [depth])

end TypeNotation.Json
