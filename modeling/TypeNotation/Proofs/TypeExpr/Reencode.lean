import TypeNotation.Proofs.TypeExpr.Lenient

set_option autoImplicit false

/-! # What was decoded is written back

A document may hold more than the type expression that it is decoded to: members that mean nothing,
attempts that fail, repeated keys. What is written for that type expression is at most as deep as
the document, since each value in it stands for a value of the document, and its records have
distinct keys, since `Field.gather` merged them. So it is decoded again and nothing more is lost. -/

namespace TypeNotation

/-! ## Levels -/

theorem encodeSlots_eq_map (slots : List TypeExpr) :
    encodeSlots slots = slots.map TypeExpr.toJson := by
  induction slots with
  | nil => rfl
  | cons of rest ih =>
    rw [encodeSlots, ih, List.map_cons]
    rfl

theorem encodeFields_eq_map (fs : List Field) :
    encodeFields fs = fs.map fun f => (f.key, f.of.toJson) := by
  induction fs with
  | nil => rfl
  | cons f rest ih =>
    obtain ⟨key, of⟩ := f
    rw [encodeFields, ih, List.map_cons]
    rfl

theorem wellKeyedSlots_iff {slots : List TypeExpr} :
    WellKeyedSlots slots ↔ ∀ of ∈ slots, TypeExpr.WellKeyed of := by
  induction slots with
  | nil => simp [WellKeyedSlots]
  | cons of rest ih =>
    rw [WellKeyedSlots, ih, List.forall_mem_cons]
    rfl

theorem wellKeyedFields_iff {fs : List Field} :
    WellKeyedFields fs ↔ ∀ f ∈ fs, f.of.WellKeyed := by
  induction fs with
  | nil => simp [WellKeyedFields]
  | cons f rest ih =>
    obtain ⟨key, of⟩ := f
    rw [WellKeyedFields, ih, List.forall_mem_cons]
    rfl

/-- A variant with distinct keys whose object is at most `n` levels deep. -/
structure Variant.FitsIn (v : Variant) (n : Nat) : Prop where
  wellKeyed : v.WellKeyed
  depth_le : v.toJson.depth ≤ n

/-- A shape with distinct keys that is made of something at most `n` levels deep. -/
structure Shape.FitsIn (s : Shape) (n : Nat) : Prop where
  wellKeyed : s.WellKeyed
  depth_le : s.content.depth ≤ n

/-- A type expression with distinct keys whose array is at most `n` levels deep. -/
structure TypeExpr.FitsIn (of : TypeExpr) (n : Nat) : Prop where
  wellKeyed : of.WellKeyed
  depth_le : of.toJson.depth ≤ n

theorem Shape.FitsIn.mono {s : Shape} {m n : Nat} (h : s.FitsIn m) (hmn : m ≤ n) : s.FitsIn n :=
  ⟨h.wellKeyed, Nat.le_trans h.depth_le hmn⟩

theorem TypeExpr.FitsIn.mono {of : TypeExpr} {m n : Nat} (h : of.FitsIn m) (hmn : m ≤ n) :
    of.FitsIn n :=
  ⟨h.wellKeyed, Nat.le_trans h.depth_le hmn⟩

theorem Variant.FitsIn.mono {v : Variant} {m n : Nat} (h : v.FitsIn m) (hmn : m ≤ n) :
    v.FitsIn n :=
  ⟨h.wellKeyed, Nat.le_trans h.depth_le hmn⟩

theorem Variant.fitsIn_name (name : Option String) (n : Nat) :
    (Variant.mk name none).FitsIn (n + 1) := by
  refine ⟨trivial, ?_⟩
  cases name with
  | none => exact Nat.le_add_left 1 n
  | some name => exact Nat.le_add_left 1 n

theorem membersDepth_typeMember_append (name : Option String) (ms : Members) :
    Json.membersDepth (typeMember name ++ ms) = Json.membersDepth ms := by
  cases name with
  | none => rfl
  | some name => exact Nat.zero_max _

/-- Besides what a shape is made of, its members only hold values without parts. -/
theorem Shape.membersDepth_members (s : Shape) :
    Json.membersDepth s.members = s.content.depth := by
  cases s with
  | array of => simp [members, content, kindMember, Json.membersDepth, Json.depth]
  | tuple of => simp [members, content, kindMember, Json.membersDepth, Json.depth]
  | fields of subset => simp [members, content, kindMember, Json.membersDepth, Json.depth]

theorem Shape.FitsIn.variant {s : Shape} {n : Nat} (h : s.FitsIn n) (name : Option String) :
    (Variant.mk name (some s)).FitsIn (n + 1) := by
  refine ⟨h.wellKeyed, ?_⟩
  rw [Variant.toJson, Json.depth, membersDepth_typeMember_append, s.membersDepth_members]
  exact Nat.succ_le_succ h.depth_le

theorem TypeExpr.fitsIn_iff {of : TypeExpr} {n : Nat} :
    of.FitsIn (n + 1) ↔ ∀ v ∈ of, v.FitsIn n := by
  have hdepth : of.toJson.depth ≤ n + 1 ↔ ∀ v ∈ of, v.toJson.depth ≤ n := by
    rw [TypeExpr.toJson, Json.depth, Nat.add_le_add_iff_right, Json.itemsDepth_le_iff,
      encodeVariants_eq_map, List.forall_mem_map]
  constructor
  · intro h v hv
    exact ⟨wellKeyedVariants_iff.1 h.wellKeyed v hv, hdepth.1 h.depth_le v hv⟩
  · intro h
    exact ⟨wellKeyedVariants_iff.2 fun v hv => (h v hv).wellKeyed,
      hdepth.2 fun v hv => (h v hv).depth_le⟩

theorem Shape.fitsIn_tuple {slots : List TypeExpr} {n : Nat} (h : ∀ of ∈ slots, of.FitsIn n) :
    (Shape.tuple slots).FitsIn (n + 1) := by
  refine ⟨wellKeyedSlots_iff.2 fun of hof => (h of hof).wellKeyed, ?_⟩
  rw [Shape.content, Json.depth, Nat.add_le_add_iff_right, Json.itemsDepth_le_iff,
    encodeSlots_eq_map, List.forall_mem_map]
  exact fun of hof => (h of hof).depth_le

/-- However often a record was given a key, it fits if all that its keys were given fits. -/
theorem Shape.fitsIn_fields_gather {fs : List Field} {n : Nat} (h : ∀ f ∈ fs, f.of.FitsIn n)
    (subset : Bool) : (Shape.fields (Field.gather fs) subset).FitsIn (n + 1) := by
  have hgather : ∀ f ∈ Field.gather fs, f.of.FitsIn n :=
    fun f hf => h f (Field.mem_of_mem_gather hf)
  refine ⟨⟨Field.nodup_keys_gather fs,
    wellKeyedFields_iff.2 fun f hf => (hgather f hf).wellKeyed⟩, ?_⟩
  rw [Shape.content, Json.depth, Nat.add_le_add_iff_right, Json.membersDepth_le_iff,
    encodeFields_eq_map, List.forall_mem_map]
  exact fun f hf => (hgather f hf).depth_le

/-! ## What is decoded fits into what it was decoded from -/

mutual

theorem Variant.fitsIn_of_ofJson? {value : Json} {v : Variant}
    (h : Variant.ofJson? value = some v) : v.FitsIn value.depth := by
  match value with
  | .object ms =>
    rw [Variant.ofJson?] at h
    split at h
    · cases h
      -- a shape that is kept was found in one of the members, whatever the others hold
      cases hshape : theOnly (shapesOf (Members.outline? ms) ms) with
      | none => exact Variant.fitsIn_name _ _
      | some shape =>
        have hmem : some shape ∈ shapesOf (Members.outline? ms) ms := by
          rw [theOnly_eq_some_iff.1 hshape]
          exact List.mem_singleton_self _
        exact (Shape.fitsIn_of_mem_shapesOf hmem).variant _
    · cases h

theorem Shape.fitsIn_of_mem_shapesOf {outline : Option Outline} {ms : Members} {shape : Shape}
    (h : some shape ∈ shapesOf outline ms) : shape.FitsIn (Json.membersDepth ms) := by
  match ms with
  | (key, value) :: rest =>
    rw [shapesOf] at h
    split at h
    · rcases List.mem_cons.1 h with h | h
      · exact (Shape.fitsIn_of_shapeOf h.symm).mono (Nat.le_max_left _ _)
      · exact (Shape.fitsIn_of_mem_shapesOf h).mono (Nat.le_max_right _ _)
    · exact (Shape.fitsIn_of_mem_shapesOf h).mono (Nat.le_max_right _ _)

theorem Shape.fitsIn_of_shapeOf {outline : Option Outline} {value : Json} {shape : Shape}
    (h : shapeOf outline value = some shape) : shape.FitsIn value.depth := by
  match outline, value with
  | none, value => cases value <;> cases h
  | some .array, .array items =>
    obtain ⟨of, hof, rfl⟩ := Option.map_eq_some_iff.1 h
    have hfits := TypeExpr.fitsIn_iff.2 (fitsIn_of_decodeVariants hof)
    exact ⟨hfits.wellKeyed, hfits.depth_le⟩
  | some .tuple, .array items =>
    obtain ⟨slots, hslots, rfl⟩ := Option.map_eq_some_iff.1 h
    exact Shape.fitsIn_tuple (fitsIn_of_decodeSlots hslots)
  | some (.fields subset), .object ms =>
    obtain ⟨fs, hfs, rfl⟩ := Option.map_eq_some_iff.1 h
    exact Shape.fitsIn_fields_gather (fitsIn_of_decodeFields hfs) subset

theorem fitsIn_of_decodeVariants {items : List Json} {of : TypeExpr}
    (h : decodeVariants items = some of) : ∀ v ∈ of, v.FitsIn (Json.itemsDepth items) := by
  match items with
  | [] =>
    cases h
    nofun
  | item :: rest =>
    simp only [decodeVariants, Option.bind_eq_bind, Option.bind_eq_some_iff] at h
    obtain ⟨v, hv, of', hof', hcons⟩ := h
    cases hcons
    rw [List.forall_mem_cons]
    exact ⟨(Variant.fitsIn_of_ofJson? hv).mono (Nat.le_max_left _ _),
      fun v' hv' => (fitsIn_of_decodeVariants hof' v' hv').mono (Nat.le_max_right _ _)⟩

theorem fitsIn_of_decodeSlots {items : List Json} {slots : List TypeExpr}
    (h : decodeSlots items = some slots) :
    ∀ of ∈ slots, TypeExpr.FitsIn of (Json.itemsDepth items) := by
  match items with
  | [] =>
    cases h
    nofun
  | .array items :: rest =>
    simp only [decodeSlots, Option.bind_eq_bind, Option.bind_eq_some_iff] at h
    obtain ⟨of, hof, slots', hslots', hcons⟩ := h
    cases hcons
    have hfits := TypeExpr.fitsIn_iff.2 (fitsIn_of_decodeVariants hof)
    rw [List.forall_mem_cons]
    exact ⟨hfits.mono (Nat.le_max_left _ _),
      fun of' hof' => (fitsIn_of_decodeSlots hslots' of' hof').mono (Nat.le_max_right _ _)⟩

theorem fitsIn_of_decodeFields {ms : Members} {fs : List Field}
    (h : decodeFields ms = some fs) : ∀ f ∈ fs, f.of.FitsIn (Json.membersDepth ms) := by
  match ms with
  | [] =>
    cases h
    nofun
  | (key, .array items) :: rest =>
    simp only [decodeFields, Option.bind_eq_bind, Option.bind_eq_some_iff] at h
    obtain ⟨of, hof, fs', hfs', hcons⟩ := h
    cases hcons
    have hfits := TypeExpr.fitsIn_iff.2 (fitsIn_of_decodeVariants hof)
    rw [List.forall_mem_cons]
    exact ⟨hfits.mono (Nat.le_max_left _ _),
      fun f hf => (fitsIn_of_decodeFields hfs' f hf).mono (Nat.le_max_right _ _)⟩

end

theorem TypeExpr.fitsIn_of_ofJson? {value : Json} {of : TypeExpr} (h : ofJson? value = some of) :
    of.FitsIn value.depth := by
  cases value with
  | array items => exact TypeExpr.fitsIn_iff.2 (fitsIn_of_decodeVariants h)
  | _ => cases h

/-! ## Documents -/

/-- If `ofJsonText` gives `of` for any text, `of.toJson` has `depth` at most 127, and `ofJsonText`
    gives `of` again for its compact and for its pretty text. -/
theorem TypeExpr.ofJsonText_toJson_of_ofJsonText {text : String} {of : TypeExpr}
    (h : ofJsonText text = .ok of) :
    of.toJson.depth ≤ 127 ∧ ofJsonText of.toJson.compact = .ok of
      ∧ ofJsonText of.toJson.pretty = .ok of := by
  obtain ⟨value, -, hdepth, hof⟩ := ofJsonText_eq_ok_iff_ofJson?.1 h
  have hfits := fitsIn_of_ofJson? hof
  have hlimit : of.toJson.depth ≤ Json.depthLimit := Nat.le_trans hfits.depth_le hdepth
  rw [ofJsonText_compact hfits.wellKeyed, ofJsonText_pretty hfits.wellKeyed, if_pos hlimit]
  exact ⟨hlimit, rfl, rfl⟩

/-- Names that are null, a number in place of a name, a member that means nothing, an attempt that
    fails inside another, a repeated key, and a shape that is described twice. -/
def messyText : String :=
  "[\x7b\"x\": 0.5, \"structure\": 0, \"type\": null, \"of\": " ++
    "[\x7b\"type\": \"A\", \"structure\": \"tuple\", \"of\": [7]\x7d]\x7d, " ++
    "\x7b\"subset\": true, \"structure\": 2, \"of\": " ++
    "\x7b\"k\": [], \"l\": [], \"k\": [\x7b\x7d]\x7d\x7d, " ++
    "\x7b\"of\": [], \"structure\": \"array\", \"of\": []\x7d]"

/-- What is written for it. -/
def tidyText : String :=
  "[\x7b\"structure\":\"array\",\"of\":[\x7b\"type\":\"A\"\x7d]\x7d," ++
    "\x7b\"structure\":\"fields\",\"of\":\x7b\"k\":[\x7b\x7d],\"l\":[]\x7d," ++
    "\"subset\":true\x7d,\x7b\x7d]"

/-- The instance at `messyText`, which is written again as `tidyText`. -/
theorem TypeExpr.ofJsonText_tidyText :
    ∃ of, ofJsonText messyText = .ok of ∧ of.toJson.compact = tidyText ∧
      of.toJson.depth ≤ 127 ∧ ofJsonText tidyText = .ok of ∧
      ofJsonText of.toJson.pretty = .ok of := by
  have hmessy : (ofJsonText messyText).toOption.map (·.toJson.compact) = some tidyText := by
    decide +kernel
  obtain ⟨of, hof, htidy⟩ := Option.map_eq_some_iff.1 hmessy
  have hread : ofJsonText messyText = .ok of := by
    revert hof
    cases ofJsonText messyText with
    | error flaw => nofun
    | ok of' => exact fun h => congrArg Except.ok (Option.some.inj h)
  have hagain := ofJsonText_toJson_of_ofJsonText hread
  rw [htidy] at hagain
  exact ⟨of, hread, htidy, hagain⟩

end TypeNotation
