import TypeNotation.Proofs.TypeExpr.Outside

set_option autoImplicit false

/-! # The lenient inside of a document

What is decoded from a value: an object describes a variant if it names it at most once, and
whatever else is in the object only decides whether the variant has a shape. For that the object has
to say which shape it is and of what, and each of the objects in it has to describe a variant.
Whether those variants have shapes of their own does not matter: an attempt that fails ends
there. -/

namespace TypeNotation

/-! ## Names -/

/-- The key `type` stands in an object at most once, and with a string or null. -/
def Members.NamedOnce (ms : Members) : Prop :=
  ms.countP (·.1 = "type") ≤ 1 ∧
    ∀ m ∈ ms, m.1 = "type" → m.2 = .null ∨ ∃ name, m.2 = .string name

theorem Members.mem_valuesAt {key : String} {ms : Members} {value : Json} :
    value ∈ ms.valuesAt key ↔ (key, value) ∈ ms := by
  simp [Members.valuesAt]

theorem Members.nameable_iff_namedOnce {ms : Members} : ms.nameable = true ↔ ms.NamedOnce := by
  have hlength : (ms.valuesAt "type").length = ms.countP (·.1 = "type") := by
    rw [Members.valuesAt, List.length_map, List.countP_eq_length_filter]
  rw [Members.nameable_iff, Members.NamedOnce, ← hlength]
  constructor
  · intro h
    have hall : ∀ value ∈ ms.valuesAt "type", value = .null ∨ ∃ name, value = .string name := by
      rcases h with h | ⟨value, h, hvalue⟩
      · simp [h]
      · simpa [h] using hvalue
    refine ⟨?_, ?_⟩
    · rcases h with h | ⟨value, h, -⟩
      · simp [h]
      · simp [h]
    · rintro ⟨key, value⟩ hm rfl
      exact hall value (Members.mem_valuesAt.2 hm)
  · rintro ⟨hone, hall⟩
    cases hvalues : ms.valuesAt "type" with
    | nil => exact .inl rfl
    | cons value rest =>
      rw [hvalues, List.length_cons] at hone
      obtain rfl : rest = [] := List.length_eq_zero_iff.1 (by omega)
      have hmem : value ∈ ms.valuesAt "type" := by simp [hvalues]
      exact .inr ⟨value, rfl, hall _ (Members.mem_valuesAt.1 hmem) rfl⟩

/-! ## Parts -/

/-- Each part of a list is decoded if it is `e c` for some `c` with `p c`, and then as `g c`. -/
theorem mapM_eq_some_iff {α β γ : Type} {f : α → Option β} {e : γ → α} {p : γ → Prop} {g : γ → β}
    (h : ∀ a b, f a = some b ↔ ∃ c, a = e c ∧ p c ∧ b = g c) {as : List α} {bs : List β} :
    as.mapM f = some bs ↔ ∃ cs : List γ, as = cs.map e ∧ (∀ c ∈ cs, p c) ∧ bs = cs.map g := by
  induction as generalizing bs with
  | nil =>
    constructor
    · intro hbs
      cases hbs
      exact ⟨[], rfl, by simp, rfl⟩
    · rintro ⟨cs, hcs, -, rfl⟩
      obtain rfl := List.map_eq_nil_iff.1 hcs.symm
      rfl
  | cons a as ih =>
    simp only [List.mapM_cons, Option.bind_eq_bind, Option.bind_eq_some_iff]
    constructor
    · rintro ⟨b, hb, bs', hbs', hpure⟩
      obtain ⟨c, rfl, hc, rfl⟩ := (h a b).1 hb
      obtain ⟨cs, rfl, hcs, rfl⟩ := ih.1 hbs'
      cases hpure
      exact ⟨c :: cs, rfl, List.forall_mem_cons.2 ⟨hc, hcs⟩, rfl⟩
    · rintro ⟨cs, hcs, hall, rfl⟩
      obtain ⟨c, cs, rfl, rfl, rfl⟩ := List.map_eq_cons_iff.1 hcs.symm
      obtain ⟨hc, hcs⟩ := List.forall_mem_cons.1 hall
      exact ⟨g c, (h _ _).2 ⟨c, rfl, hc, rfl⟩, cs.map g, ih.2 ⟨cs, rfl, hcs, rfl⟩, rfl⟩

theorem Variant.ofJson?_eq_some_iff (value : Json) (v : Variant) :
    ofJson? value = some v ↔
      ∃ ms : Members, value = .object ms ∧ ms.NamedOnce ∧ v = ofMembers ms := by
  constructor
  · intro h
    cases value with
    | object ms =>
      rw [ofJson?] at h
      split at h
      · next hnameable =>
        cases h
        exact ⟨ms, rfl, Members.nameable_iff_namedOnce.1 hnameable, rfl⟩
      · cases h
    | _ => cases h
  · rintro ⟨ms, rfl, hnamed, rfl⟩
    exact Variant.ofJson?_object (Members.nameable_iff_namedOnce.2 hnamed)

/-- The array of some objects. -/
def Json.objects (items : List Members) : Json :=
  .array (items.map .object)

theorem TypeExpr.ofJson?_eq_some_iff (value : Json) (of : TypeExpr) :
    ofJson? value = some of ↔
      ∃ items, value = .objects items ∧ (∀ ms ∈ items, ms.NamedOnce) ∧
        of = items.map Variant.ofMembers := by
  have hmapM := fun items bs =>
    @mapM_eq_some_iff _ _ _ _ _ _ _ Variant.ofJson?_eq_some_iff items bs
  constructor
  · intro h
    cases value with
    | array items =>
      rw [ofJson?, decodeVariants_eq_mapM, hmapM] at h
      obtain ⟨cs, rfl, hall, rfl⟩ := h
      exact ⟨cs, rfl, hall, rfl⟩
    | _ => cases h
  · rintro ⟨items, rfl, hall, rfl⟩
    rw [Json.objects, ofJson?, decodeVariants_eq_mapM, hmapM]
    exact ⟨items, rfl, hall, rfl⟩

theorem decodeSlots_eq_mapM (items : List Json) :
    decodeSlots items = items.mapM TypeExpr.ofJson? := by
  induction items with
  | nil => rfl
  | cons item rest ih =>
    rw [List.mapM_cons, ← ih]
    cases item with
    | array items => rw [decodeSlots, TypeExpr.ofJson?]
    | _ => rfl

theorem decodeFields_eq_mapM (ms : Members) :
    decodeFields ms = ms.mapM fun m => (TypeExpr.ofJson? m.2).map (Field.mk m.1) := by
  induction ms with
  | nil => rfl
  | cons m rest ih =>
    obtain ⟨key, value⟩ := m
    rw [List.mapM_cons, ← ih]
    cases value with
    | array items =>
      rw [decodeFields, TypeExpr.ofJson?]
      cases decodeVariants items <;> rfl
    | _ => rfl

/-! ## Shapes -/

/-- The key `key` stands in an object exactly once, and with `value`. -/
def Members.Once (ms : Members) (key : String) (value : Json) : Prop :=
  ms.filter (·.1 = key) = [(key, value)]

/-- The members of an object outline a shape: the only `structure` is the name of its kind, or the
    number of the kind in their order, and the only `subset` of a record is a boolean. -/
inductive Members.Outlines (ms : Members) : Outline → Prop
  | array (hkind : ms.Once "structure" (.string "array") ∨ ms.Once "structure" (.natural 0)) :
      ms.Outlines .array
  | tuple (hkind : ms.Once "structure" (.string "tuple") ∨ ms.Once "structure" (.natural 1)) :
      ms.Outlines .tuple
  | fields {subset : Bool}
      (hkind : ms.Once "structure" (.string "fields") ∨ ms.Once "structure" (.natural 2))
      (hsubset : ms.Once "subset" (.bool subset)) : ms.Outlines (.fields subset)

/-- The members of an object describe a shape: they outline it, the only `of` holds its parts, and
    each object among the parts names its variant at most once. -/
inductive Members.Describes (ms : Members) : Shape → Prop
  | array {items : List Members} (houtline : ms.Outlines .array)
      (hof : ms.Once "of" (.objects items)) (hitems : ∀ ms' ∈ items, ms'.NamedOnce) :
      ms.Describes (.array (items.map Variant.ofMembers))
  | tuple {slots : List (List Members)} (houtline : ms.Outlines .tuple)
      (hof : ms.Once "of" (.array (slots.map .objects)))
      (hslots : ∀ items ∈ slots, ∀ ms' ∈ items, ms'.NamedOnce) :
      ms.Describes (.tuple (slots.map fun items => items.map Variant.ofMembers))
  | fields {entries : List (String × List Members)} {subset : Bool}
      (houtline : ms.Outlines (.fields subset))
      (hof : ms.Once "of" (.object (entries.map fun e => (e.1, .objects e.2))))
      (hentries : ∀ e ∈ entries, ∀ ms' ∈ e.2, ms'.NamedOnce) :
      ms.Describes
        (.fields (Field.gather (entries.map fun e => .mk e.1 (e.2.map Variant.ofMembers))) subset)

theorem Members.once_iff {ms : Members} {key : String} {value : Json} :
    ms.Once key value ↔ ms.valuesAt key = [value] := by
  rw [Once, valuesAt, List.map_eq_singleton_iff]
  constructor
  · intro h
    exact ⟨_, h, rfl⟩
  · rintro ⟨⟨key', value'⟩, hfilter, rfl⟩
    have hmem : (key', value') ∈ ms.filter (·.1 = key) := by simp [hfilter]
    obtain rfl : key' = key := by simpa using (List.mem_filter.1 hmem).2
    exact hfilter

theorem ShapeKind.ofJson?_eq_some_iff {value : Json} {kind : ShapeKind} :
    ofJson? value = some kind ↔
      (kind = .array ∧ (value = .string "array" ∨ value = .natural 0)) ∨
      (kind = .tuple ∧ (value = .string "tuple" ∨ value = .natural 1)) ∨
      (kind = .fields ∧ (value = .string "fields" ∨ value = .natural 2)) := by
  constructor
  · intro h
    unfold ofJson? at h
    split at h <;> grind [ShapeKind.name]
  · rintro (⟨rfl, rfl | rfl⟩ | ⟨rfl, rfl | rfl⟩ | ⟨rfl, rfl | rfl⟩) <;> rfl

theorem Members.outline?_eq_some_iff {ms : Members} {o : Outline} :
    ms.outline? = some o ↔ ms.Outlines o := by
  constructor
  · intro h
    unfold outline? at h
    split at h
    · next value hvalue =>
      have honly : ∀ {a b : Json}, value = a ∨ value = b →
          ms.Once "structure" a ∨ ms.Once "structure" b := by
        rintro a b (rfl | rfl)
        · exact .inl (once_iff.2 hvalue)
        · exact .inr (once_iff.2 hvalue)
      cases hkind : ShapeKind.ofJson? value with
      | none => rw [hkind] at h; cases h
      | some kind =>
        rw [hkind] at h
        rcases ShapeKind.ofJson?_eq_some_iff.1 hkind with
          ⟨rfl, hvalue⟩ | ⟨rfl, hvalue⟩ | ⟨rfl, hvalue⟩
        · cases h
          exact .array (honly hvalue)
        · cases h
          exact .tuple (honly hvalue)
        · simp only at h
          split at h
          · next hsubset =>
            cases h
            exact .fields (honly hvalue) (once_iff.2 hsubset)
          · cases h
    · cases h
  · intro h
    unfold outline?
    cases h with
    | array hkind => rcases hkind with h | h <;> rw [once_iff.1 h] <;> rfl
    | tuple hkind => rcases hkind with h | h <;> rw [once_iff.1 h] <;> rfl
    | fields hkind hsubset =>
      rcases hkind with h | h <;> rw [once_iff.1 h, once_iff.1 hsubset] <;> rfl

theorem shapesOf_eq_map (outline : Option Outline) (ms : Members) :
    shapesOf outline ms = (ms.valuesAt "of").map (shapeOf outline) := by
  induction ms with
  | nil => rfl
  | cons m rest ih =>
    obtain ⟨key, value⟩ := m
    by_cases hkey : key = "of"
    · simp [shapesOf, Members.valuesAt, hkey, ih]
    · simp [shapesOf, Members.valuesAt, hkey, ih]

theorem theOnly_eq_some_iff {α : Type} {as : List (Option α)} {a : α} :
    theOnly as = some a ↔ as = [some a] := by
  unfold theOnly
  split
  · simp
  · next hne =>
    constructor
    · intro hnone
      cases hnone
    · rintro rfl
      exact absurd rfl (hne _)

theorem shape_ofMembers_eq {ms : Members} {shape : Shape} :
    (Variant.ofMembers ms).shape = some shape ↔
      ∃ content, ms.valuesAt "of" = [content] ∧ shapeOf ms.outline? content = some shape := by
  rw [Variant.ofMembers, Variant.shape, theOnly_eq_some_iff, shapesOf_eq_map,
    List.map_eq_singleton_iff]

theorem shapeOf_array_eq_some_iff {content : Json} {shape : Shape} :
    shapeOf (some .array) content = some shape ↔
      ∃ items, content = .objects items ∧ (∀ ms ∈ items, ms.NamedOnce) ∧
        shape = .array (items.map Variant.ofMembers) := by
  have hshape : shapeOf (some .array) content = (TypeExpr.ofJson? content).map .array := by
    cases content with
    | array items => rw [shapeOf, TypeExpr.ofJson?]
    | _ => rfl
  rw [hshape, Option.map_eq_some_iff]
  constructor
  · rintro ⟨of, hof, rfl⟩
    obtain ⟨items, rfl, hitems, rfl⟩ := (TypeExpr.ofJson?_eq_some_iff _ _).1 hof
    exact ⟨items, rfl, hitems, rfl⟩
  · rintro ⟨items, rfl, hitems, rfl⟩
    exact ⟨_, (TypeExpr.ofJson?_eq_some_iff _ _).2 ⟨items, rfl, hitems, rfl⟩, rfl⟩

theorem shapeOf_tuple_eq_some_iff {content : Json} {shape : Shape} :
    shapeOf (some .tuple) content = some shape ↔
      ∃ slots : List (List Members), content = .array (slots.map .objects) ∧
        (∀ items ∈ slots, ∀ ms ∈ items, ms.NamedOnce) ∧
        shape = .tuple (slots.map fun items => items.map Variant.ofMembers) := by
  have hmapM := fun items bs =>
    @mapM_eq_some_iff _ _ _ _ _ _ _ TypeExpr.ofJson?_eq_some_iff items bs
  constructor
  · intro h
    cases content with
    | array items =>
      rw [shapeOf, decodeSlots_eq_mapM, Option.map_eq_some_iff] at h
      obtain ⟨of, hof, rfl⟩ := h
      obtain ⟨slots, rfl, hslots, rfl⟩ := (hmapM _ _).1 hof
      exact ⟨slots, rfl, hslots, rfl⟩
    | _ => cases h
  · rintro ⟨slots, rfl, hslots, rfl⟩
    rw [shapeOf, decodeSlots_eq_mapM, Option.map_eq_some_iff]
    exact ⟨_, (hmapM _ _).2 ⟨slots, rfl, hslots, rfl⟩, rfl⟩

/-- A field is decoded from a member if its type is decoded from the member's value. -/
theorem field_eq_some_iff (m : String × Json) (f : Field) :
    (TypeExpr.ofJson? m.2).map (Field.mk m.1) = some f ↔
      ∃ e : String × List Members, m = (e.1, .objects e.2) ∧ (∀ ms ∈ e.2, ms.NamedOnce) ∧
        f = .mk e.1 (e.2.map Variant.ofMembers) := by
  rw [Option.map_eq_some_iff]
  constructor
  · rintro ⟨of, hof, rfl⟩
    obtain ⟨items, hvalue, hitems, rfl⟩ := (TypeExpr.ofJson?_eq_some_iff _ _).1 hof
    exact ⟨(m.1, items), Prod.ext rfl hvalue, hitems, rfl⟩
  · rintro ⟨e, rfl, hitems, rfl⟩
    exact ⟨_, (TypeExpr.ofJson?_eq_some_iff _ _).2 ⟨e.2, rfl, hitems, rfl⟩, rfl⟩

theorem shapeOf_fields_eq_some_iff {subset : Bool} {content : Json} {shape : Shape} :
    shapeOf (some (.fields subset)) content = some shape ↔
      ∃ entries : List (String × List Members),
        content = .object (entries.map fun e => (e.1, .objects e.2)) ∧
          (∀ e ∈ entries, ∀ ms ∈ e.2, ms.NamedOnce) ∧
          shape = .fields
            (Field.gather (entries.map fun e => .mk e.1 (e.2.map Variant.ofMembers))) subset := by
  have hmapM := fun ms bs => @mapM_eq_some_iff _ _ _ _ _ _ _ field_eq_some_iff ms bs
  constructor
  · intro h
    cases content with
    | object members =>
      rw [shapeOf, decodeFields_eq_mapM, Option.map_eq_some_iff] at h
      obtain ⟨of, hof, rfl⟩ := h
      obtain ⟨entries, rfl, hentries, rfl⟩ := (hmapM _ _).1 hof
      exact ⟨entries, rfl, hentries, rfl⟩
    | _ => cases h
  · rintro ⟨entries, rfl, hentries, rfl⟩
    rw [shapeOf, decodeFields_eq_mapM, Option.map_eq_some_iff]
    exact ⟨_, (hmapM _ _).2 ⟨entries, rfl, hentries, rfl⟩, rfl⟩

theorem shape_ofMembers_iff {ms : Members} {shape : Shape} :
    (Variant.ofMembers ms).shape = some shape ↔ ms.Describes shape := by
  rw [shape_ofMembers_eq]
  constructor
  · rintro ⟨content, hof, hshape⟩
    rw [← Members.once_iff] at hof
    cases houtline : ms.outline? with
    | none =>
      have hnone : shapeOf none content = none := by
        cases content <;> rfl
      rw [houtline, hnone] at hshape
      cases hshape
    | some outline =>
      rw [houtline] at hshape
      have houtlines := Members.outline?_eq_some_iff.1 houtline
      cases outline with
      | array =>
        obtain ⟨items, rfl, hitems, rfl⟩ := shapeOf_array_eq_some_iff.1 hshape
        exact .array houtlines hof hitems
      | tuple =>
        obtain ⟨slots, rfl, hslots, rfl⟩ := shapeOf_tuple_eq_some_iff.1 hshape
        exact .tuple houtlines hof hslots
      | fields subset =>
        obtain ⟨entries, rfl, hentries, rfl⟩ := shapeOf_fields_eq_some_iff.1 hshape
        exact .fields houtlines hof hentries
  · intro h
    cases h with
    | array houtline hof hitems =>
      refine ⟨_, Members.once_iff.1 hof, ?_⟩
      rw [Members.outline?_eq_some_iff.2 houtline]
      exact shapeOf_array_eq_some_iff.2 ⟨_, rfl, hitems, rfl⟩
    | tuple houtline hof hslots =>
      refine ⟨_, Members.once_iff.1 hof, ?_⟩
      rw [Members.outline?_eq_some_iff.2 houtline]
      exact shapeOf_tuple_eq_some_iff.2 ⟨_, rfl, hslots, rfl⟩
    | fields houtline hof hentries =>
      refine ⟨_, Members.once_iff.1 hof, ?_⟩
      rw [Members.outline?_eq_some_iff.2 houtline]
      exact shapeOf_fields_eq_some_iff.2 ⟨_, rfl, hentries, rfl⟩

/-! ## Documents -/

/-- A text is a document, not too deep, of an array of objects that each name a variant at most
    once. -/
structure DescribedBy (text : String) (items : List Members) : Prop where
  isDocument : Json.IsDocument text (.objects items)
  depth_le : (Json.objects items).depth ≤ 127
  namedOnce : ∀ ms ∈ items, ms.NamedOnce

theorem TypeExpr.ofJsonText_eq_ok_iff {text : String} {of : TypeExpr} :
    ofJsonText text = .ok of ↔
      ∃ items, DescribedBy text items ∧ of = items.map Variant.ofMembers := by
  rw [ofJsonText_eq_ok_iff_ofJson?]
  constructor
  · rintro ⟨value, hdocument, hdepth, hof⟩
    obtain ⟨items, rfl, hitems, rfl⟩ := (ofJson?_eq_some_iff _ _).1 hof
    exact ⟨items, ⟨hdocument, hdepth, hitems⟩, rfl⟩
  · rintro ⟨items, ⟨hdocument, hdepth, hitems⟩, rfl⟩
    exact ⟨_, hdocument, hdepth, (ofJson?_eq_some_iff _ _).2 ⟨items, rfl, hitems, rfl⟩⟩

/-- `ofJsonText` succeeds on the texts that are `DescribedBy` some objects: documents of an array of
    objects, with `depth` at most 127, each of which is `NamedOnce`. It gives the variant
    `ofMembers` of each object. Its name is that of the object, and it has a shape if and only if
    the object `Describes` that shape, which asks of the objects inside no more than that they are
    `NamedOnce`. -/
theorem TypeExpr.exists_ofJsonText_eq_ok_iff (text : String) :
    ((∃ of, ofJsonText text = .ok of) ↔ ∃ items, DescribedBy text items) ∧
      (∀ of, ofJsonText text = .ok of ↔
        ∃ items, DescribedBy text items ∧ of = items.map Variant.ofMembers) ∧
      ∀ ms : Members, (Variant.ofMembers ms).name = ms.name ∧
        ∀ shape, (Variant.ofMembers ms).shape = some shape ↔ ms.Describes shape := by
  refine ⟨?_, fun of => ofJsonText_eq_ok_iff, fun ms => ⟨rfl, fun shape => shape_ofMembers_iff⟩⟩
  simp only [ofJsonText_eq_ok_iff]
  constructor
  · rintro ⟨of, items, hitems, rfl⟩
    exact ⟨items, hitems⟩
  · rintro ⟨items, hitems⟩
    exact ⟨_, items, hitems, rfl⟩

/-- An attempt that fails leaves the attempt around it alone, unless what it is made in is no
    variant at all. -/
example :
    (Variant.ofMembers [("structure", .natural 0),
        ("of", .objects [[("type", .string "A"), ("structure", .natural 3)]])]).shape
        = some (.array [.named "A"]) ∧
      (Variant.ofMembers [("structure", .natural 0),
        ("of", .objects [[("type", .null), ("type", .null)]])]).shape.isNone :=
  ⟨rfl, rfl⟩

end TypeNotation
