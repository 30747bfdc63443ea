import Mathlib.Data.List.Nodup
import TypeNotation.Proofs.TypeExpr.Uncovered

set_option autoImplicit false

/-! # Records whose keys are repeated

`Field.merged` says which fields a record has when a key is given more than once: each key stands
where it first occurs, with the type that it is given last. `Field.gather` builds that list field by
field, and its keys are distinct. -/

namespace TypeNotation.Field

/-- The last of some fields that has the key of `f`. -/
def lastLike (fs : List Field) (f : Field) : Field :=
  (fs.reverse.find? (·.key = f.key)).getD f

/-- Each key where it first occurs, with the type that it is given last. -/
def merged (fs : List Field) : List Field :=
  (keepBy (fun before f => !before.any (·.key = f.key)) fs).map (lastLike fs)

/-- Puts `f` in the place of a field that has its key. -/
def replaceLike (f g : Field) : Field :=
  if g.key = f.key then f else g

theorem key_lastLike (fs : List Field) (f : Field) : (lastLike fs f).key = f.key := by
  unfold lastLike
  cases h : fs.reverse.find? (·.key = f.key) with
  | none => rfl
  | some g => simpa using List.find?_some h

theorem lastLike_append_singleton (fs : List Field) (f g : Field) :
    lastLike (fs ++ [f]) g = replaceLike f (lastLike fs g) := by
  rw [replaceLike, key_lastLike]
  by_cases h : f.key = g.key
  · simp [lastLike, h]
  · simp [lastLike, h, Ne.symm h]

theorem map_replaceLike_of_not_mem {f : Field} {fs : List Field} (h : f.key ∉ fs.map key) :
    fs.map (replaceLike f) = fs := by
  have hid : ∀ g ∈ fs, replaceLike f g = id g := by
    intro g hg
    have hne : g.key ≠ f.key := fun he => h (List.mem_map.2 ⟨g, hg, he⟩)
    rw [replaceLike, if_neg hne, id]
  rw [List.map_congr_left hid, List.map_id]

theorem merged_append_singleton (fs : List Field) (f : Field) :
    merged (fs ++ [f])
      = (merged fs).map (replaceLike f) ++ if f.key ∈ fs.map key then [] else [f] := by
  have hlast : lastLike (fs ++ [f]) = replaceLike f ∘ lastLike fs :=
    funext (lastLike_append_singleton fs f)
  rw [merged, keepBy_append_singleton, List.map_append, hlast, ← List.map_map]
  congr 1
  have hself : replaceLike f (lastLike fs f) = f := by
    rw [replaceLike, if_pos (key_lastLike fs f)]
  have hany : fs.any (fun g => g.key = f.key) = decide (f.key ∈ fs.map key) := by
    simp [List.any_eq]
  by_cases h : f.key ∈ fs.map key
  · simp [hany, h]
  · simp [hany, h, hself]

/-! ## Adding field by field -/

theorem insert_eq {f : Field} {fs : List Field} (hnodup : (fs.map key).Nodup) :
    insert f fs = fs.map (replaceLike f) ++ if f.key ∈ fs.map key then [] else [f] := by
  induction fs with
  | nil => rfl
  | cons g rest ih =>
    rw [List.map_cons, List.nodup_cons] at hnodup
    rw [insert]
    by_cases h : g.key = f.key
    · have hrest := map_replaceLike_of_not_mem (h ▸ hnodup.1)
      simp [h, replaceLike, hrest]
    · simp [h, Ne.symm h, replaceLike, ih hnodup.2]

theorem gather_append_singleton (fs : List Field) (f : Field) :
    gather (fs ++ [f]) = insert f (gather fs) := by
  simp [gather]

theorem nodup_keys_gather (fs : List Field) : ((gather fs).map key).Nodup := by
  induction fs using List.reverseRecOn with
  | nil => simp [gather]
  | append_singleton rest f ih =>
    rw [gather_append_singleton, keys_insert]
    split
    · exact ih
    · next h =>
      rw [← List.concat_eq_append]
      exact ih.concat h

theorem mem_keys_gather {fs : List Field} {k : String} :
    k ∈ (gather fs).map key ↔ k ∈ fs.map key := by
  induction fs using List.reverseRecOn with
  | nil => simp [gather]
  | append_singleton rest f ih =>
    rw [gather_append_singleton, keys_insert, List.map_append, List.mem_append, ← ih]
    split
    · next h =>
      constructor
      · exact Or.inl
      · rintro (hk | hk)
        · exact hk
        · obtain rfl : k = f.key := by simpa using hk
          exact h
    · simp

theorem gather_eq_merged (fs : List Field) : gather fs = merged fs := by
  induction fs using List.reverseRecOn with
  | nil => rfl
  | append_singleton rest f ih =>
    have hmem : f.key ∈ (gather rest).map key ↔ f.key ∈ rest.map key := mem_keys_gather
    rw [gather_append_singleton, insert_eq (nodup_keys_gather rest), merged_append_singleton, ← ih]
    simp only [hmem]

/-! ## What merging leaves alone -/

theorem gather_eq_self {fs : List Field} (h : (fs.map key).Nodup) : gather fs = fs := by
  induction fs using List.reverseRecOn with
  | nil => rfl
  | append_singleton rest f ih =>
    rw [List.map_append, List.nodup_append] at h
    obtain ⟨hrest, -, hdisjoint⟩ := h
    have hf : f.key ∉ rest.map key := fun hmem => hdisjoint _ hmem f.key (by simp) rfl
    rw [gather_append_singleton, ih hrest, insert_eq hrest, map_replaceLike_of_not_mem hf,
      if_neg hf]

theorem mem_of_mem_gather {fs : List Field} {f : Field} (h : f ∈ gather fs) : f ∈ fs := by
  induction fs using List.reverseRecOn generalizing f with
  | nil => simp [gather] at h
  | append_singleton rest g ih =>
    rw [gather_append_singleton, insert_eq (nodup_keys_gather rest), List.mem_append] at h
    rcases h with h | h
    · obtain ⟨f', hf', rfl⟩ := List.mem_map.1 h
      unfold replaceLike
      split
      · exact List.mem_append_right _ (List.mem_singleton_self g)
      · exact List.mem_append_left _ (ih hf')
    · split at h
      · simp at h
      · exact List.mem_append_right _ h

theorem insert_map {g : Field → Field} (hg : ∀ f, (g f).key = f.key) (f : Field)
    (fs : List Field) : insert (g f) (fs.map g) = (insert f fs).map g := by
  induction fs with
  | nil => rfl
  | cons f' rest ih =>
    simp only [List.map_cons, insert, hg]
    split
    · rfl
    · rw [ih, List.map_cons]

/-- A change to the types of fields can as well be made after merging. -/
theorem gather_map {g : Field → Field} (hg : ∀ f, (g f).key = f.key) (fs : List Field) :
    gather (fs.map g) = (gather fs).map g := by
  induction fs using List.reverseRecOn with
  | nil => rfl
  | append_singleton rest f ih =>
    rw [List.map_append, List.map_singleton, gather_append_singleton, gather_append_singleton, ih,
      insert_map hg]

end TypeNotation.Field
