import TypeNotation.Proofs.Json.Rearranged
import TypeNotation.Proofs.TypeExpr.Lenient
import TypeNotation.TypeExpr.Equiv

set_option autoImplicit false

/-! # The order of members does not matter

If no key is repeated in an object, its members are found by their keys and not by their places.
Only a record keeps the order of its keys, and equality of type expressions ignores that order. So
what is decoded from a document remains the same up to that equality when members change places,
and a document that is refused remains refused. -/

namespace TypeNotation

open Json (Rearranged SameKey)

/-! ## Outcomes that are related -/

section

variable {α α' β β' : Type} {R : α → α' → Prop} {S : β → β' → Prop}

theorem rel_bind {a? : Option α} {a'? : Option α'} {f : α → Option β} {f' : α' → Option β'}
    (h : Option.Rel R a? a'?) (hf : ∀ a a', R a a' → Option.Rel S (f a) (f' a')) :
    Option.Rel S (a?.bind f) (a'?.bind f') := by
  cases h with
  | some h => exact hf _ _ h
  | none => exact .none

theorem rel_map {a? : Option α} {a'? : Option α'} {f : α → β} {f' : α' → β'}
    (h : Option.Rel R a? a'?) (hf : ∀ a a', R a a' → S (f a) (f' a')) :
    Option.Rel S (a?.map f) (a'?.map f') := by
  cases h with
  | some h => exact .some (hf _ _ h)
  | none => exact .none

theorem rel_imp {T : α → α' → Prop} {a? : Option α} {a'? : Option α'} (h : Option.Rel R a? a'?)
    (himp : ∀ a a', R a a' → T a a') : Option.Rel T a? a'? := by
  cases h with
  | some h => exact .some (himp _ _ h)
  | none => exact .none

theorem rel_attach {a? : Option α} {a'? : Option α'} (h : Option.Rel R a? a'?) :
    Option.Rel (fun a a' => a? = some a ∧ a'? = some a' ∧ R a a') a? a'? := by
  cases h with
  | some h => exact .some ⟨rfl, rfl, h⟩
  | none => exact .none

theorem rel_comp {γ : Type} {T : β → γ → Prop} {a? : Option α} {b? : Option β} {c? : Option γ}
    {R : α → β → Prop} (h : Option.Rel R a? b?) (h' : Option.Rel T b? c?) :
    Option.Rel (fun a c => ∃ b, R a b ∧ T b c) a? c? := by
  cases h with
  | some h =>
    cases h' with
    | some h' => exact .some ⟨_, h, h'⟩
  | none =>
    cases h' with
    | none => exact .none

theorem rel_mapM {f : α → Option β} {f' : α' → Option β'}
    (hf : ∀ a a', R a a' → Option.Rel S (f a) (f' a')) {as : List α} {as' : List α'}
    (h : List.Forall₂ R as as') :
    Option.Rel (List.Forall₂ S) (as.mapM f) (as'.mapM f') := by
  induction h with
  | nil => exact .some .nil
  | cons ha _ ih =>
    rw [List.mapM_cons, List.mapM_cons]
    refine rel_bind (hf _ _ ha) fun b b' hb => rel_bind ih fun bs bs' hbs => ?_
    exact .some (.cons hb hbs)

/-- Where a list is read item by item, its order only decides about the order of the result. -/
theorem rel_mapM_perm (f : α → Option β) {as as' : List α} (h : as.Perm as') :
    Option.Rel List.Perm (as.mapM f) (as'.mapM f) := by
  induction h with
  | nil => exact .some .nil
  | cons a _ ih =>
    rw [List.mapM_cons, List.mapM_cons]
    cases f a with
    | none => exact .none
    | some b =>
      simp only [Option.bind_eq_bind, Option.bind_some]
      exact rel_bind ih fun bs bs' hbs => .some (hbs.cons b)
  | swap a a' as =>
    simp only [List.mapM_cons]
    cases f a with
    | none => cases f a' <;> exact .none
    | some b =>
      cases f a' with
      | none => exact .none
      | some b' =>
        cases as.mapM f with
        | none => exact .none
        | some bs => exact .some (.swap b b' bs)
  | trans _ _ ih ih' =>
    exact rel_imp (rel_comp ih ih') fun bs bs'' ⟨_, hbs, hbs'⟩ => hbs.trans hbs'

end

/-! ## Equality, part by part -/

/-- Two type expressions are equal up to the order of keys. -/
def TypeExpr.Alike (of of' : TypeExpr) : Prop :=
  of.equiv of' = true

/-- Two variants are equal up to the order of keys. -/
def Variant.Alike (v v' : Variant) : Prop :=
  v.equiv v' = true

/-- Two shapes are equal up to the order of keys. -/
def Shape.Alike (s s' : Shape) : Prop :=
  s.equiv s' = true

/-- Two fields have one key, and types that are equal up to the order of keys. -/
structure Field.Alike (f f' : Field) : Prop where
  key_eq : f.key = f'.key
  of_alike : f.of.Alike f'.of

theorem TypeExpr.alike_of_forall₂ {of of' : TypeExpr} (h : List.Forall₂ Variant.Alike of of') :
    of.Alike of' := by
  unfold TypeExpr.Alike TypeExpr.equiv
  induction h with
  | nil => rw [variantsEquiv]
  | cons hv _ ih =>
    rw [variantsEquiv, Bool.and_eq_true]
    exact ⟨hv, ih⟩

theorem Shape.alike_tuple {slots slots' : List TypeExpr}
    (h : List.Forall₂ TypeExpr.Alike slots slots') :
    (Shape.tuple slots).Alike (Shape.tuple slots') := by
  rw [Shape.Alike, Shape.equiv]
  induction h with
  | nil => rw [slotsEquiv]
  | cons hof _ ih =>
    rw [slotsEquiv, Bool.and_eq_true]
    exact ⟨hof, ih⟩

theorem Variant.alike_mk (name : Option String) {shape? shape'? : Option Shape}
    (h : Option.Rel Shape.Alike shape? shape'?) :
    (Variant.mk name shape?).Alike (Variant.mk name shape'?) := by
  cases h with
  | some h =>
    rw [Variant.Alike, Variant.equiv, Bool.and_eq_true]
    exact ⟨decide_eq_true rfl, h⟩
  | none =>
    rw [Variant.Alike, Variant.equiv]
    exact decide_eq_true rfl

theorem Field.lookup_of_mem {fs : List Field} (hkeys : (fs.map key).Nodup) {f : Field}
    (h : f ∈ fs) : Field.lookup f.key fs = some f.of := by
  induction fs with
  | nil => simp at h
  | cons g rest ih =>
    rw [List.map_cons, List.nodup_cons] at hkeys
    rcases List.mem_cons.1 h with rfl | h
    · simp [Field.lookup]
    · have hne : g.key ≠ f.key := fun he => hkeys.1 (he ▸ List.mem_map_of_mem h)
      rw [Field.lookup, List.find?_cons_of_neg (by simpa using hne)]
      exact ih hkeys.2 h

theorem fieldsWithin_of_forall₂ {fs between others : List Field}
    (h : List.Forall₂ Field.Alike fs between)
    (hothers : ∀ f ∈ between, Field.lookup f.key others = some f.of) :
    fieldsWithin fs others = true := by
  induction h with
  | nil => rw [fieldsWithin]
  | @cons f f' rest rest' hf _ ih =>
    rw [List.forall_mem_cons, ← hf.key_eq] at hothers
    obtain ⟨key, of⟩ := f
    have hlookup : Field.lookup key others = some f'.of := hothers.1
    rw [fieldsWithin, hlookup, Bool.and_eq_true]
    exact ⟨hf.of_alike, ih hothers.2⟩

/-- The fields of a record may change places if no key is repeated. -/
theorem Shape.alike_fields {fs between fs' : List Field} (h : List.Forall₂ Field.Alike fs between)
    (hperm : between.Perm fs') (hkeys : (fs'.map Field.key).Nodup) (subset : Bool) :
    (Shape.fields fs subset).Alike (Shape.fields fs' subset) := by
  have hlength : fs.length = fs'.length := by
    rw [h.length_eq, hperm.length_eq]
  have hwithin : fieldsWithin fs fs' = true :=
    fieldsWithin_of_forall₂ h fun f hf => Field.lookup_of_mem hkeys (hperm.mem_iff.1 hf)
  rw [Shape.Alike, Shape.equiv, hlength, hwithin]
  simp

/-! ## Values -/

/-- Two values are one, or of one form. -/
def Json.FormedAlike (value value' : Json) : Prop :=
  value = value' ∨ (∃ items items', value = .array items ∧ value' = .array items') ∨
    ∃ ms ms', value = .object ms ∧ value' = .object ms'

/-- Two values are read alike: either is a scalar only if it is the other one, and they describe the
    same, as far as they describe a variant, a type expression, or a shape. -/
structure Json.ReadAlike (value value' : Json) : Prop where
  formed : FormedAlike value value'
  variant : Option.Rel Variant.Alike (Variant.ofJson? value) (Variant.ofJson? value')
  typeExpr : Option.Rel TypeExpr.Alike (TypeExpr.ofJson? value) (TypeExpr.ofJson? value')
  shape (outline : Option Outline) :
    Option.Rel Shape.Alike (shapeOf outline value) (shapeOf outline value')

theorem Json.readAlike_scalar {value : Json} (hdepth : value.depth = 0) :
    ReadAlike value value := by
  have hvariant : Variant.ofJson? value = none := by
    cases value with
    | object ms => cases hdepth
    | _ => rfl
  have htypeExpr : TypeExpr.ofJson? value = none := by
    cases value with
    | array items => cases hdepth
    | _ => rfl
  have hshape : ∀ outline, shapeOf outline value = none := by
    intro outline
    cases value with
    | array items => cases hdepth
    | object ms => cases hdepth
    | _ => cases outline with
      | none => rfl
      | some outline => cases outline <;> rfl
  refine ⟨.inl rfl, ?_, ?_, fun outline => ?_⟩
  · rw [hvariant]
    exact .none
  · rw [htypeExpr]
    exact .none
  · rw [hshape]
    exact .none

/-! ## Arrays -/

theorem Json.readAlike_array {items items' : List Json} (h : List.Forall₂ ReadAlike items items') :
    ReadAlike (array items) (array items') := by
  have hvariants : Option.Rel TypeExpr.Alike (decodeVariants items) (decodeVariants items') := by
    rw [decodeVariants_eq_mapM, decodeVariants_eq_mapM]
    have hmapM := rel_mapM (fun _ _ hitem => hitem.variant) h
    exact rel_imp hmapM fun of of' => TypeExpr.alike_of_forall₂
  have hslots : Option.Rel Shape.Alike ((decodeSlots items).map .tuple)
      ((decodeSlots items').map .tuple) := by
    rw [decodeSlots_eq_mapM, decodeSlots_eq_mapM]
    have hmapM := rel_mapM (fun _ _ hitem => hitem.typeExpr) h
    exact rel_map hmapM fun slots slots' => Shape.alike_tuple
  refine ⟨.inr (.inl ⟨_, _, rfl, rfl⟩), .none, hvariants, fun outline => ?_⟩
  cases outline with
  | none => exact .none
  | some outline =>
    cases outline with
    | array =>
      refine rel_map hvariants fun of of' hof => ?_
      rw [Shape.Alike, Shape.equiv]
      exact hof
    | tuple => exact hslots
    | fields subset => exact .none

/-! ## Objects -/

section

variable {ms between ms' : Members}

theorem keys_of_decodeFields {fs : List Field} (h : decodeFields ms = some fs) :
    fs.map Field.key = ms.map Prod.fst := by
  rw [decodeFields_eq_mapM] at h
  induction ms generalizing fs with
  | nil =>
    cases h
    rfl
  | cons m rest ih =>
    simp only [List.mapM_cons, Option.bind_eq_bind, Option.bind_eq_some_iff,
      Option.map_eq_some_iff] at h
    obtain ⟨f, ⟨of, -, rfl⟩, fs', hfs', hcons⟩ := h
    cases hcons
    rw [List.map_cons, List.map_cons, ih hfs']
    rfl

theorem rel_decodeFields (h : List.Forall₂ (SameKey Json.ReadAlike) ms between)
    (hperm : between.Perm ms') :
    Option.Rel (fun fs fs' => ∃ between, List.Forall₂ Field.Alike fs between ∧ between.Perm fs')
      (decodeFields ms) (decodeFields ms') := by
  have hfield : ∀ m m', SameKey Json.ReadAlike m m' →
      Option.Rel Field.Alike ((TypeExpr.ofJson? m.2).map (Field.mk m.1))
        ((TypeExpr.ofJson? m'.2).map (Field.mk m'.1)) := by
    rintro - - ⟨hvalue⟩
    exact rel_map hvalue.typeExpr fun of of' hof => ⟨rfl, hof⟩
  rw [decodeFields_eq_mapM, decodeFields_eq_mapM]
  exact rel_comp (rel_mapM hfield h) (rel_mapM_perm _ hperm)

theorem rel_fields (h : List.Forall₂ (SameKey Json.ReadAlike) ms between)
    (hperm : between.Perm ms') (hkeys : (ms.map Prod.fst).Nodup) (subset : Bool) :
    Option.Rel Shape.Alike ((decodeFields ms).map fun fs => .fields (Field.gather fs) subset)
      ((decodeFields ms').map fun fs => .fields (Field.gather fs) subset) := by
  have hkeys' : (ms'.map Prod.fst).Nodup := by
    rw [Json.keys_eq_of_forall₂_sameKey h] at hkeys
    exact (hperm.map Prod.fst).nodup_iff.1 hkeys
  -- no key is repeated, so gathering the fields changes nothing on either side
  refine rel_map (rel_attach (rel_decodeFields h hperm)) ?_
  rintro fs fs' ⟨hfs, hfs', between, hbetween, hperm⟩
  rw [← keys_of_decodeFields hfs] at hkeys
  rw [← keys_of_decodeFields hfs'] at hkeys'
  rw [Field.gather_eq_self hkeys, Field.gather_eq_self hkeys']
  exact Shape.alike_fields hbetween hperm hkeys' subset

/-- What two objects give to a key: nothing, or one value each that is read alike. -/
inductive Json.OneAlike : List Json → List Json → Prop
  | none : OneAlike [] []
  | one {value value' : Json} (h : ReadAlike value value') : OneAlike [value] [value']

theorem Members.valuesAt_cons (key key' : String) (value : Json) (ms : Members) :
    Members.valuesAt key ((key', value) :: ms)
      = if key' = key then value :: ms.valuesAt key else ms.valuesAt key := by
  by_cases hkey : key' = key
  · simp [Members.valuesAt, hkey]
  · simp [Members.valuesAt, hkey]

theorem forall₂_valuesAt (h : List.Forall₂ (SameKey Json.ReadAlike) ms between) (key : String) :
    List.Forall₂ Json.ReadAlike (ms.valuesAt key) (between.valuesAt key) := by
  induction h with
  | nil => exact .nil
  | cons hm _ ih =>
    obtain ⟨hvalue⟩ := hm
    rw [Members.valuesAt_cons, Members.valuesAt_cons]
    split
    · exact .cons hvalue ih
    · exact ih

theorem length_valuesAt_le_one (hkeys : (ms.map Prod.fst).Nodup) (key : String) :
    (ms.valuesAt key).length ≤ 1 := by
  have hcount := List.nodup_iff_count_le_one.1 hkeys key
  rw [List.count, List.countP_map, List.countP_eq_length_filter] at hcount
  simpa [Members.valuesAt, Function.comp_def, beq_eq_decide] using hcount

theorem oneAlike_valuesAt (h : List.Forall₂ (SameKey Json.ReadAlike) ms between)
    (hperm : between.Perm ms') (hkeys : (ms.map Prod.fst).Nodup) (key : String) :
    Json.OneAlike (ms.valuesAt key) (ms'.valuesAt key) := by
  have halike := forall₂_valuesAt h key
  have hperm' : (between.valuesAt key).Perm (ms'.valuesAt key) :=
    (hperm.filter _).map Prod.snd
  have hone := length_valuesAt_le_one hkeys key
  -- a key has at most one value, so there is nothing that could change places with it
  revert halike hperm' hone
  generalize Members.valuesAt key ms = values, Members.valuesAt key between = values',
    Members.valuesAt key ms' = values''
  intro halike hperm' hone
  cases halike with
  | nil =>
    obtain rfl := List.nil_perm.1 hperm'
    exact .none
  | cons hvalue hrest =>
    cases hrest with
    | nil =>
      obtain rfl := List.singleton_perm.1 hperm'
      exact .one hvalue
    | cons => simp at hone

theorem Members.nameable_eq_of_alike
    (h : Json.OneAlike (ms.valuesAt "type") (ms'.valuesAt "type")) :
    ms.nameable = ms'.nameable := by
  unfold Members.nameable
  generalize Members.valuesAt "type" ms = values, Members.valuesAt "type" ms' = values' at h
  cases h with
  | none => rfl
  | one h => rcases h.formed with rfl | ⟨items, items', rfl, rfl⟩ | ⟨ms, ms', rfl, rfl⟩ <;> rfl

theorem Members.name_eq_of_alike
    (h : Json.OneAlike (ms.valuesAt "type") (ms'.valuesAt "type")) : ms.name = ms'.name := by
  unfold Members.name
  generalize Members.valuesAt "type" ms = values, Members.valuesAt "type" ms' = values' at h
  cases h with
  | none => rfl
  | one h => rcases h.formed with rfl | ⟨items, items', rfl, rfl⟩ | ⟨ms, ms', rfl, rfl⟩ <;> rfl

theorem ShapeKind.ofJson?_eq_of_formedAlike {value value' : Json} (h : value.FormedAlike value') :
    ShapeKind.ofJson? value = ShapeKind.ofJson? value' := by
  rcases h with rfl | ⟨items, items', rfl, rfl⟩ | ⟨ms, ms', rfl, rfl⟩ <;> rfl

theorem Members.outline?_eq_of_alike
    (hkind : Json.OneAlike (ms.valuesAt "structure") (ms'.valuesAt "structure"))
    (hsubset : Json.OneAlike (ms.valuesAt "subset") (ms'.valuesAt "subset")) :
    ms.outline? = ms'.outline? := by
  unfold Members.outline?
  generalize Members.valuesAt "structure" ms = kinds,
    Members.valuesAt "structure" ms' = kinds' at hkind
  generalize Members.valuesAt "subset" ms = subsets,
    Members.valuesAt "subset" ms' = subsets' at hsubset
  cases hkind with
  | none => rfl
  | one hkind =>
    simp only [ShapeKind.ofJson?_eq_of_formedAlike hkind.formed]
    cases hsubset with
    | none => rfl
    | one hsubset =>
      rcases hsubset.formed with rfl | ⟨items, items', rfl, rfl⟩ | ⟨ms, ms', rfl, rfl⟩ <;> rfl

theorem rel_theOnly_shapesOf (h : Json.OneAlike (ms.valuesAt "of") (ms'.valuesAt "of"))
    (outline : Option Outline) :
    Option.Rel Shape.Alike (theOnly (shapesOf outline ms)) (theOnly (shapesOf outline ms')) := by
  rw [shapesOf_eq_map, shapesOf_eq_map]
  generalize Members.valuesAt "of" ms = values, Members.valuesAt "of" ms' = values' at h
  cases h with
  | none => exact .none
  | one h => exact h.shape outline

theorem Variant.rel_ofJson?_object (h : ∀ key, Json.OneAlike (ms.valuesAt key) (ms'.valuesAt key)) :
    Option.Rel Variant.Alike (ofJson? (.object ms)) (ofJson? (.object ms')) := by
  have hshape := rel_theOnly_shapesOf (h "of") ms.outline?
  rw [ofJson?, ofJson?, Members.nameable_eq_of_alike (h "type"),
    Members.name_eq_of_alike (h "type")]
  rw [Members.outline?_eq_of_alike (h "structure") (h "subset")] at hshape ⊢
  split
  · exact .some (Variant.alike_mk _ hshape)
  · exact .none

theorem Json.readAlike_object (h : List.Forall₂ (SameKey Json.ReadAlike) ms between)
    (hperm : between.Perm ms') (hkeys : (ms.map Prod.fst).Nodup) :
    ReadAlike (object ms) (object ms') := by
  have hvariant := Variant.rel_ofJson?_object (oneAlike_valuesAt h hperm hkeys)
  refine ⟨.inr (.inr ⟨_, _, rfl, rfl⟩), hvariant, .none, fun outline => ?_⟩
  cases outline with
  | none => exact .none
  | some outline =>
    cases outline with
    | array => exact .none
    | tuple => exact .none
    | fields subset => exact rel_fields h hperm hkeys subset

end

/-! ## Documents -/

variable {text text' : String} {value value' : Json}

theorem Json.Rearranged.readAlike (h : Rearranged value value') :
    value.DistinctKeys → ReadAlike value value' := by
  refine h.induct (motive := fun value value' => value.DistinctKeys → ReadAlike value value')
    ?_ ?_ ?_
  · intro value hdepth _
    exact Json.readAlike_scalar hdepth
  · intro items items' hitems hkeys
    have hboth := (List.forall₂_and_left _ _).2 ⟨Json.itemsDistinctKeys_iff.1 hkeys, hitems⟩
    exact Json.readAlike_array (hboth.imp fun item item' h => h.2 h.1)
  · intro ms between ms' hms hperm hkeys
    have hboth := (List.forall₂_and_left _ _).2 ⟨Json.membersDistinctKeys_iff.1 hkeys.2, hms⟩
    have hmembers : List.Forall₂ (SameKey Json.ReadAlike) ms between := by
      refine hboth.imp ?_
      rintro - - ⟨hkeys, ⟨hvalue⟩⟩
      exact .mk (hvalue hkeys)
    exact Json.readAlike_object hmembers hperm hkeys.1

/-- Let two documents have values that are `Rearranged`, with `DistinctKeys` and `depth` at most
    127. Then `ofJsonText` gives type expressions for both that are equal up to the order of keys
    (`equiv`), or `mistyped` for both. -/
theorem TypeExpr.ofJsonText_equiv_of_rearranged (hdocument : Json.IsDocument text value)
    (hdocument' : Json.IsDocument text' value') (hdepth : value.depth ≤ 127)
    (hkeys : value.DistinctKeys) (h : value.Rearranged value') :
    (∃ of of', ofJsonText text = .ok of ∧ ofJsonText text' = .ok of' ∧ of.equiv of' = true) ∨
      ofJsonText text = .error .mistyped ∧ ofJsonText text' = .error .mistyped := by
  have hread := Json.read_eq_ok_iff.2 ⟨hdocument, hdepth⟩
  have hread' := Json.read_eq_ok_iff.2 ⟨hdocument', h.depth_eq ▸ hdepth⟩
  have halike := (h.readAlike hkeys).typeExpr
  rw [ofJsonText_of_read hread, ofJsonText_of_read hread']
  generalize ofJson? value = of?, ofJson? value' = of'? at halike
  cases halike with
  | some halike => exact .inl ⟨_, _, rfl, rfl, halike⟩
  | none => exact .inr ⟨rfl, rfl⟩

theorem Json.isDocument_compact (hnumberless : value.Numberless)
    (hdepth : value.depth ≤ Json.depthLimit) : Json.IsDocument value.compact value := by
  have hread := Json.readDocument_of_judges
    (Json.judges_valueAt Json.Style.tight Json.depthLimit 0 hnumberless)
  rw [← Json.compact_eq, if_pos (decide_eq_true hdepth)] at hread
  exact (Json.read_eq_ok_iff.1 hread).1

/-- The members of a record with the given fields. -/
def recordMembers (fields : Members) : Members :=
  [("type", .string "A"), ("structure", .string "fields"), ("of", .object fields),
    ("subset", .bool true)]

/-- Three members, of which only the last has a key that `Members.outline?` looks for. -/
def recordFields : Members :=
  [("k", .array []), ("l", .array [.object []]), ("structure", .array [])]

/-- A document with a record whose fields are `recordFields`. -/
def recordValue : Json :=
  .array [.object (recordMembers recordFields)]

/-- The same record with the members of both objects in reverse. -/
def reversedValue : Json :=
  .array [.object (recordMembers recordFields.reverse).reverse]

theorem recordValue_rearranged : recordValue.Rearranged reversedValue := by
  have hfields : (Json.object recordFields).Rearranged (.object recordFields.reverse) :=
    Json.rearranged_object_of_perm (List.reverse_perm _).symm
  have hmembers : List.Forall₂ (SameKey Rearranged) (recordMembers recordFields)
      (recordMembers recordFields.reverse) :=
    .cons (.mk (.refl _)) (.cons (.mk (.refl _)) (.cons (.mk hfields) (.cons (.mk (.refl _)) .nil)))
  exact .array (.cons (.object hmembers (List.reverse_perm _).symm) .nil)

theorem recordValue_distinctKeys : recordValue.DistinctKeys :=
  ⟨⟨by decide, trivial, trivial,
    ⟨by decide, trivial, ⟨⟨List.nodup_nil, trivial⟩, trivial⟩, trivial, trivial⟩, trivial, trivial⟩,
    trivial⟩

/-- The instance at `recordValue` and `reversedValue`, whose members are in reverse at two levels.
    -/
theorem TypeExpr.ofJsonText_equiv_of_rearranged_record :
    (Json.IsDocument recordValue.compact recordValue ∧
        Json.IsDocument reversedValue.compact reversedValue ∧ recordValue.depth ≤ 127 ∧
        recordValue.DistinctKeys ∧ recordValue.Rearranged reversedValue) ∧
      ((∃ of of', ofJsonText recordValue.compact = .ok of ∧
          ofJsonText reversedValue.compact = .ok of' ∧ of.equiv of' = true) ∨
        ofJsonText recordValue.compact = .error .mistyped ∧
          ofJsonText reversedValue.compact = .error .mistyped) := by
  have hdocument : Json.IsDocument recordValue.compact recordValue :=
    Json.isDocument_compact (by simp [recordValue, recordMembers, recordFields, Json.Numberless,
      Json.ItemsNumberless, Json.MembersNumberless]) (by decide)
  have hdocument' : Json.IsDocument reversedValue.compact reversedValue :=
    Json.isDocument_compact (by simp [reversedValue, recordMembers, recordFields, Json.Numberless,
      Json.ItemsNumberless, Json.MembersNumberless]) (by decide)
  have hdepth : recordValue.depth ≤ 127 := by decide
  exact ⟨⟨hdocument, hdocument', hdepth, recordValue_distinctKeys, recordValue_rearranged⟩,
    ofJsonText_equiv_of_rearranged hdocument hdocument' hdepth recordValue_distinctKeys
      recordValue_rearranged⟩

end TypeNotation
