import Mathlib.Data.List.Forall2
import TypeNotation.Proofs.Json.Depth

set_option autoImplicit false

/-! # Values that differ in the order of members

`Json.Rearranged` relates a value to what becomes of it when the members of its objects are put into
another order, in any of them and at any depth. Nothing else is moved: the items of an array keep
their places. -/

namespace TypeNotation.Json

/-- Two members have one key, and their values are related. -/
inductive SameKey (related : Json → Json → Prop) : String × Json → String × Json → Prop
  | mk {key : String} {value value' : Json} (h : related value value') :
      SameKey related (key, value) (key, value')

/-- The members of an object may be rearranged, and before that what is in each of them. -/
inductive Rearranged : Json → Json → Prop
  | scalar {value : Json} (hdepth : value.depth = 0) : Rearranged value value
  | array {items items' : List Json} (h : List.Forall₂ Rearranged items items') :
      Rearranged (array items) (array items')
  | object {ms between ms' : List (String × Json)}
      (h : List.Forall₂ (SameKey Rearranged) ms between) (hperm : between.Perm ms') :
      Rearranged (object ms) (object ms')

mutual

/-- A value no object of which has two members with the same key. -/
def DistinctKeys : Json → Prop
  | array items => ItemsDistinctKeys items
  | object members => (members.map Prod.fst).Nodup ∧ MembersDistinctKeys members
  | _ => True

/-- No object in an item has two members with the same key. -/
def ItemsDistinctKeys : List Json → Prop
  | [] => True
  | item :: rest => item.DistinctKeys ∧ ItemsDistinctKeys rest

/-- No object in the value of a member has two members with the same key. -/
def MembersDistinctKeys : List (String × Json) → Prop
  | [] => True
  | (_, value) :: rest => value.DistinctKeys ∧ MembersDistinctKeys rest

end

theorem itemsDistinctKeys_iff {items : List Json} :
    ItemsDistinctKeys items ↔ ∀ item ∈ items, item.DistinctKeys := by
  induction items with
  | nil => simp [ItemsDistinctKeys]
  | cons item rest ih => rw [ItemsDistinctKeys, ih, List.forall_mem_cons]

theorem membersDistinctKeys_iff {members : List (String × Json)} :
    MembersDistinctKeys members ↔ ∀ m ∈ members, m.2.DistinctKeys := by
  induction members with
  | nil => simp [MembersDistinctKeys]
  | cons m rest ih => rw [MembersDistinctKeys, ih, List.forall_mem_cons]

/-! ## What may be rearranged -/

mutual

theorem Rearranged.refl (value : Json) : Rearranged value value := by
  match value with
  | null => exact .scalar rfl
  | bool b => exact .scalar rfl
  | natural n => exact .scalar rfl
  | decimal spelling => exact .scalar rfl
  | string s => exact .scalar rfl
  | array items => exact .array (forall₂_rearranged_refl items)
  | object members => exact .object (forall₂_sameKey_refl members) (List.Perm.refl members)

theorem forall₂_rearranged_refl (items : List Json) : List.Forall₂ Rearranged items items := by
  match items with
  | [] => exact .nil
  | item :: rest => exact .cons (Rearranged.refl item) (forall₂_rearranged_refl rest)

theorem forall₂_sameKey_refl (members : List (String × Json)) :
    List.Forall₂ (SameKey Rearranged) members members := by
  match members with
  | [] => exact .nil
  | (key, value) :: rest => exact .cons (.mk (Rearranged.refl value)) (forall₂_sameKey_refl rest)

end

theorem rearranged_object_of_perm {ms ms' : List (String × Json)} (h : ms.Perm ms') :
    Rearranged (object ms) (object ms') :=
  .object (forall₂_sameKey_refl ms) h

/-! ## Induction -/

/-- What holds of scalars, and of arrays and objects if it holds of what is in them, holds of all
    values that are rearranged. -/
theorem Rearranged.induct {motive : Json → Json → Prop} {value value' : Json}
    (h : Rearranged value value')
    (scalar : ∀ value : Json, value.depth = 0 → motive value value)
    (array : ∀ items items', List.Forall₂ motive items items' →
      motive (.array items) (.array items'))
    (object : ∀ ms between ms', List.Forall₂ (SameKey motive) ms between → between.Perm ms' →
      motive (.object ms) (.object ms')) : motive value value' :=
  -- one motive for each kind of list that the relation passes through
  @Rearranged.rec (fun value value' _ => motive value value')
    (fun items items' _ => List.Forall₂ motive items items')
    (fun ms ms' _ => List.Forall₂ (SameKey motive) ms ms')
    (fun m m' _ => SameKey motive m m')
    (fun hdepth => scalar _ hdepth) (fun _ hitems => array _ _ hitems)
    (fun _ hperm hms => object _ _ _ hms hperm)
    .nil (fun _ _ hitem hrest => .cons hitem hrest) .nil (fun _ _ hm hrest => .cons hm hrest)
    (fun _ hvalue => .mk hvalue) value value' h

/-! ## What rearranging leaves alone -/

theorem keys_eq_of_forall₂_sameKey {related : Json → Json → Prop}
    {ms ms' : List (String × Json)} (h : List.Forall₂ (SameKey related) ms ms') :
    ms.map Prod.fst = ms'.map Prod.fst := by
  induction h with
  | nil => rfl
  | cons hm _ ih =>
    obtain ⟨-⟩ := hm
    rw [List.map_cons, List.map_cons, ih]

theorem itemsDepth_eq_of_forall₂ {items items' : List Json}
    (h : List.Forall₂ (fun item item' => item.depth = item'.depth) items items') :
    itemsDepth items = itemsDepth items' := by
  induction h with
  | nil => rfl
  | cons hitem _ ih => rw [itemsDepth, itemsDepth, hitem, ih]

theorem membersDepth_eq_of_forall₂ {ms ms' : List (String × Json)}
    (h : List.Forall₂ (SameKey fun value value' => value.depth = value'.depth) ms ms') :
    membersDepth ms = membersDepth ms' := by
  induction h with
  | nil => rfl
  | cons hm _ ih =>
    obtain ⟨hvalue⟩ := hm
    rw [membersDepth, membersDepth, hvalue, ih]

theorem membersDepth_le_of_subset {ms ms' : List (String × Json)} (h : ms ⊆ ms') :
    membersDepth ms ≤ membersDepth ms' := by
  have hbound := membersDepth_le_iff.1 (Nat.le_refl (membersDepth ms'))
  exact membersDepth_le_iff.2 fun m hm => hbound m (h hm)

theorem Rearranged.depth_eq {value value' : Json} (h : Rearranged value value') :
    value.depth = value'.depth := by
  refine h.induct (motive := fun value value' => value.depth = value'.depth) ?_ ?_ ?_
  · intro value hdepth
    rfl
  · intro items items' hitems
    rw [depth, depth, itemsDepth_eq_of_forall₂ hitems]
  · intro ms between ms' hms hperm
    have hle := membersDepth_le_of_subset hperm.subset
    have hge := membersDepth_le_of_subset hperm.symm.subset
    rw [depth, depth, membersDepth_eq_of_forall₂ hms, Nat.le_antisymm hle hge]

end TypeNotation.Json
