import TypeNotation.Proofs.Json.Judge
import TypeNotation.Proofs.TypeExpr.Codec

set_option autoImplicit false

/-! # Type expressions as JSON texts

The outside of a document is read member by member and the inside as a value. Both find in what is
written, in either style, what was encoded, unless the document is deeper than `Json.depthLimit`
allows: then it is malformed. -/

namespace TypeNotation

open Json (AllRoom Judges Style)

/-! ## Nothing is encoded as a number -/

mutual

theorem Variant.numberless_toJson (v : Variant) : v.toJson.Numberless := by
  match v with
  | .mk none none => trivial
  | .mk (some name) none => exact ⟨trivial, trivial⟩
  | .mk none (some shape) => exact shape.numberless_members
  | .mk (some name) (some shape) => exact ⟨trivial, shape.numberless_members⟩

theorem Shape.numberless_members (s : Shape) : Json.MembersNumberless s.members := by
  cases s with
  | array of => exact ⟨trivial, itemsNumberless_encodeVariants of, trivial⟩
  | tuple of => exact ⟨trivial, itemsNumberless_encodeSlots of, trivial⟩
  | fields of subset => exact ⟨trivial, membersNumberless_encodeFields of, trivial, trivial⟩

theorem itemsNumberless_encodeVariants (of : List Variant) :
    Json.ItemsNumberless (encodeVariants of) := by
  cases of with
  | nil => trivial
  | cons v rest => exact ⟨v.numberless_toJson, itemsNumberless_encodeVariants rest⟩

theorem itemsNumberless_encodeSlots (of : List (List Variant)) :
    Json.ItemsNumberless (encodeSlots of) := by
  cases of with
  | nil => trivial
  | cons of rest => exact ⟨itemsNumberless_encodeVariants of, itemsNumberless_encodeSlots rest⟩

theorem membersNumberless_encodeFields (of : List Field) :
    Json.MembersNumberless (encodeFields of) := by
  match of with
  | [] => trivial
  | .mk key of :: rest =>
    exact ⟨itemsNumberless_encodeVariants of, membersNumberless_encodeFields rest⟩

end

/-! ## The outside of a document -/

theorem Members.nameable_iff {ms : Members} :
    ms.nameable = true ↔ ms.valuesAt "type" = []
      ∨ ∃ value, ms.valuesAt "type" = [value] ∧ (value = .null ∨ ∃ name, value = .string name) := by
  unfold Members.nameable
  split
  · next h => simp [h]
  · next h => simp [h]
  · next h => simp [h]
  · next hnil hnull hstring =>
    constructor
    · intro h
      cases h
    · rintro (h | ⟨value, h, rfl | ⟨name, rfl⟩⟩)
      · exact absurd h hnil
      · exact absurd h hnull
      · exact absurd h (hstring name)

theorem Members.any_eq_false_of_valuesAt {key : String} {ms : Members}
    (h : ms.valuesAt key = []) : ms.any (·.1 = key) = false := by
  simpa [Members.valuesAt] using h

/-- No member before a variant's name is a name, and the name is a string or null. -/
theorem nameable_split {front back : Members} {m : String × Json} (hm : m.1 = "type")
    (h : Members.nameable (front ++ m :: back) = true) :
    front.any (·.1 = "type") = false ∧ (m.2 = .null ∨ ∃ name, m.2 = .string name) := by
  have hvalues : Members.valuesAt "type" (front ++ m :: back)
      = front.valuesAt "type" ++ m.2 :: Members.valuesAt "type" back := by
    rw [Members.valuesAt_append]
    simp [Members.valuesAt, hm]
  rw [Members.nameable_iff, hvalues] at h
  obtain hnil | ⟨value, hone, hvalue⟩ := h
  · simp at hnil
  · obtain ⟨hfront, hm, -⟩ : front.valuesAt "type" = [] ∧ m.2 = value
        ∧ Members.valuesAt "type" back = [] := by
      simpa [List.append_eq_cons_iff] using hone
    exact ⟨Members.any_eq_false_of_valuesAt hfront, hm ▸ hvalue⟩

namespace Outside

theorem judges_name (style : Style) (level : Nat) {value : Json}
    (h : value = .null ∨ ∃ name, value = .string name) :
    Judges name (style.chars level value) true value := by
  have hdepth : value.depth = 0 := by
    obtain rfl | ⟨name, rfl⟩ := h
    · rfl
    · rfl
  have hnumberless : value.Numberless := by
    obtain rfl | ⟨name, rfl⟩ := h
    · trivial
    · trivial
  intro room rest hroom
  rw [Json.chars_of_depth_eq_zero style level hdepth]
  have hread := Json.readScalar_scalarChars hdepth hnumberless rest
  show readName _ = _
  obtain rfl | ⟨name, rfl⟩ := h
  · have hnull : Json.scalarChars .null = ['n', 'u', 'l', 'l'] := by simp [Json.scalarChars]
    rw [hnull] at hread ⊢
    rw [readName, List.cons_append, Json.skipRoom_append_cons hroom rfl]
    exact hread
  · rw [Json.scalarChars, Json.stringChars_append] at hread ⊢
    rw [readName, Json.skipRoom_append_cons hroom rfl]
    exact hread

theorem judges_member (style : Style) (n level : Nat) {front back : Members} {m : String × Json}
    (hnameable : Members.nameable (front ++ m :: back) = true) (hm : m.2.Numberless) :
    Judges (member (Json.valueAt n) front.reverse m.1) (style.behindKey level m.2)
      (m.2.depth ≤ n) m := by
  unfold member
  split
  · next htype =>
    obtain ⟨hfront, hvalue⟩ := nameable_split htype hnameable
    have hdepth : m.2.depth ≤ n := by
      obtain h | ⟨name, h⟩ := hvalue
      · rw [h]; exact Nat.zero_le n
      · rw [h]; exact Nat.zero_le n
    rw [List.any_reverse, hfront, if_neg Bool.false_ne_true, decide_eq_true hdepth]
    exact ((judges_name style level hvalue).map (m.1, ·)).behindColon
  · exact ((Json.judges_valueAt style n level hm).map (m.1, ·)).behindColon

theorem judges_object (style : Style) (n level : Nat) {ms : Members}
    (hnameable : ms.nameable = true) (hms : Json.MembersNumberless ms) :
    Judges (object (Json.valueAt n)) (style.chars level (.object ms)) (Json.membersDepth ms ≤ n)
      ms := by
  have hparts : ∀ front m back, ms = front ++ m :: back →
      Judges (member (Json.valueAt n) (front.map id).reverse m.1) (style.behindKey (level + 1) m.2)
        (m.2.depth ≤ n) (id m) := by
    rintro front m back rfl
    rw [List.map_id]
    have hm := Json.membersNumberless_iff.1 hms m (List.mem_append_right front List.mem_cons_self)
    exact judges_member style n (level + 1) hnameable hm
  intro room rest hroom
  have hread := Json.readMembers_inside style level ms hparts rest
  show readObject _ _ = _
  rw [readObject, Style.chars, Style.memberTexts_eq_map, List.cons_append,
    Json.skipRoom_append_cons hroom rfl]
  simpa only [Json.all_depth_le_members, List.map_id] using hread

/-- The array and the objects in it are two of the levels that may be open. -/
theorem judges_document (style : Style) {items : List Members}
    (hnameable : ∀ ms ∈ items, ms.nameable = true)
    (hnumberless : ∀ ms ∈ items, Json.MembersNumberless ms) :
    Judges document (style.chars 0 (.array (items.map .object)))
      ((Json.array (items.map .object)).depth ≤ Json.depthLimit)
      (items.map Variant.ofMembers) := by
  have hparts : ∀ ms ∈ items,
      Judges ((object (Json.valueAt (Json.depthLimit - 2))).map Variant.ofMembers)
        (style.chars 1 (.object ms)) (Json.membersDepth ms ≤ Json.depthLimit - 2)
        (Variant.ofMembers ms) :=
    fun ms hms => (judges_object style _ 1 (hnameable ms hms) (hnumberless ms hms)).map _
  have hbegins : ∀ ms ∈ items, Json.BeginsItem (style.chars 1 (.object ms)) :=
    fun ms hms => Json.beginsItem_chars style 1 (hnumberless ms hms)
  intro room rest hroom
  have hread := Json.readItems_inside style 0 items hparts hbegins rest
  rw [Json.all_membersDepth_le] at hread
  show readArray _ _ = _
  rw [readArray, Style.chars, Style.itemTexts_eq_map, List.map_map, List.cons_append,
    Json.skipRoom_append_cons hroom rfl]
  exact hread

end Outside

/-! ## Documents -/

theorem Json.readDocument_of_judges {α : Type} {reader : CharReader α} {text : List Char}
    {accept : Bool} {a : α} (h : Judges reader text accept a) :
    Json.readDocument reader (String.ofList text)
      = if accept then .ok a else .error .malformed := by
  have hread := h [] [] Json.allRoom_nil
  rw [List.nil_append, List.append_nil] at hread
  rw [Json.readDocument, String.toList_ofList, hread]
  cases accept with
  | true => rfl
  | false => rfl

/-- In either style the document is read back as far as its depth allows. -/
theorem TypeExpr.ofJsonText_chars (style : Style) {of : TypeExpr} (h : of.WellKeyed) :
    ofJsonText (String.ofList (style.chars 0 of.toJson))
      = if of.toJson.depth ≤ Json.depthLimit then .ok of else .error .malformed := by
  have htoJson : of.toJson = .array ((of.map Variant.members).map .object) := by
    rw [TypeExpr.toJson, encodeVariants_eq_map, List.map_map]
    exact congrArg _ (List.map_congr_left fun v _ => v.toJson_eq)
  have hnameable : ∀ ms ∈ of.map Variant.members, ms.nameable = true :=
    List.forall_mem_map.2 fun v _ => nameable_members v
  have hnumberless : ∀ ms ∈ of.map Variant.members, Json.MembersNumberless ms := by
    refine List.forall_mem_map.2 fun v _ => ?_
    have hv := v.numberless_toJson
    rwa [v.toJson_eq, Json.Numberless] at hv
  have hmembers : (of.map Variant.members).map Variant.ofMembers = of := by
    rw [List.map_map, List.map_congr_left fun v hv =>
      v.ofMembers_members (wellKeyedVariants_iff.1 h v hv), List.map_id']
  have hread := Json.readDocument_of_judges (Outside.judges_document style hnameable hnumberless)
  rw [← htoJson, hmembers] at hread
  simp only [decide_eq_true_eq] at hread
  exact hread

theorem TypeExpr.ofJsonText_compact {of : TypeExpr} (h : of.WellKeyed) :
    ofJsonText of.toJson.compact
      = if of.toJson.depth ≤ Json.depthLimit then .ok of else .error .malformed := by
  rw [Json.compact_eq, ofJsonText_chars Style.tight h]

theorem TypeExpr.ofJsonText_pretty {of : TypeExpr} (h : of.WellKeyed) :
    ofJsonText of.toJson.pretty
      = if of.toJson.depth ≤ Json.depthLimit then .ok of else .error .malformed := by
  rw [Json.pretty_eq, ofJsonText_chars Style.lined h]

/-- For a type expression that is `WellKeyed`, `ofJsonText` gives it back from the compact and from
    the pretty text of `toJson` if that has `depth` at most 127, and gives `malformed` for both
    texts if it has `depth` at least 128. -/
theorem TypeExpr.ofJsonText_toJson {of : TypeExpr} (h : of.WellKeyed) :
    (of.toJson.depth ≤ 127 →
        ofJsonText of.toJson.compact = .ok of ∧ ofJsonText of.toJson.pretty = .ok of)
      ∧ (128 ≤ of.toJson.depth →
        ofJsonText of.toJson.compact = .error .malformed
          ∧ ofJsonText of.toJson.pretty = .error .malformed) := by
  rw [ofJsonText_compact h, ofJsonText_pretty h]
  constructor
  · intro hdepth
    have hfits : of.toJson.depth ≤ Json.depthLimit := hdepth
    rw [if_pos hfits]
    exact ⟨rfl, rfl⟩
  · intro hdepth
    have hdeep : ¬ of.toJson.depth ≤ Json.depthLimit := Nat.not_le.2 hdepth
    rw [if_neg hdeep]
    exact ⟨rfl, rfl⟩

/-- Arrays of arrays, the innermost of no type at all. -/
def nestedArrays : Nat → TypeExpr
  | 0 => []
  | n + 1 => [.anonymous (.array (nestedArrays n))]

theorem wellKeyed_nestedArrays (n : Nat) : (nestedArrays n).WellKeyed := by
  induction n with
  | zero => trivial
  | succ n ih => exact ⟨ih, trivial⟩

theorem depth_toJson_nestedArrays (n : Nat) : (nestedArrays n).toJson.depth = 2 * n + 1 := by
  induction n with
  | zero => rfl
  | succ n ih =>
    have hdepth : (nestedArrays (n + 1)).toJson.depth = (nestedArrays n).toJson.depth + 2 := by
      simp [nestedArrays, TypeExpr.toJson, encodeVariants, Variant.anonymous, Variant.toJson,
        typeMember, kindMember, Shape.members, Json.depth, Json.itemsDepth, Json.membersDepth]
    rw [hdepth, ih, Nat.mul_succ, Nat.add_right_comm]

/-- Names and keys that mean something to JSON or to its decoder, and a variant of nothing. -/
def awkwardExpr : TypeExpr :=
  [.mk none none,
    .mk (some "\"\x01\\") (some (.fields
      [.mk "type" [.mk none none], .mk "" [.named "structure"], .mk "of" []] true))]

/-- The instances at `awkwardExpr`, which is given back, and at 64 nested arrays, which are 128
    deep. -/
theorem TypeExpr.ofJsonText_toJson_awkwardExpr :
    awkwardExpr.WellKeyed
      ∧ (ofJsonText awkwardExpr.toJson.compact = .ok awkwardExpr
        ∧ ofJsonText awkwardExpr.toJson.pretty = .ok awkwardExpr)
      ∧ (nestedArrays 64).WellKeyed
      ∧ (ofJsonText (nestedArrays 64).toJson.compact = .error .malformed
        ∧ ofJsonText (nestedArrays 64).toJson.pretty = .error .malformed) := by
  have hawkward : awkwardExpr.WellKeyed :=
    ⟨trivial, ⟨by decide, ⟨trivial, trivial⟩, ⟨trivial, trivial⟩, trivial, trivial⟩, trivial⟩
  have hnested := wellKeyed_nestedArrays 64
  refine ⟨hawkward, (ofJsonText_toJson hawkward).1 (by decide), hnested,
    (ofJsonText_toJson hnested).2 ?_⟩
  rw [depth_toJson_nestedArrays]
  decide

end TypeNotation
