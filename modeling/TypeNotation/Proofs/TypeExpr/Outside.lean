import TypeNotation.Proofs.Json.Decodes
import TypeNotation.Proofs.TypeExpr.JsonText

set_option autoImplicit false

/-! # The strict outside of a document

The outside of a document is read member by member, and yet it is read as if the whole document had
been read as a value first and decoded then: where the value is no type expression the document is
mistyped, and where there is no value reading fails all the same. -/

namespace TypeNotation

open Json (CharReader Flaw)

/-! ## Names -/

namespace Outside

/-- A value that may be the name of a variant. -/
def name? : Json → Option Json
  | .null => some .null
  | .string s => some (.string s)
  | _ => none

theorem Spells.exists_name {text : List Char} {value : Json} (h : Json.Spells text value)
    (hname : name? value ≠ none) : ∃ back, text = 'n' :: back ∨ text = '"' :: back := by
  cases h with
  | array h => exact absurd rfl hname
  | object h => exact absurd rfl hname
  | scalar h =>
    cases h with
    | nullWord => exact ⟨_, .inl rfl⟩
    | trueWord => exact absurd rfl hname
    | falseWord => exact absurd rfl hname
    | string h =>
      cases h with
      | mk h => exact ⟨_, .inr rfl⟩
    | @number cs n h hfits =>
      refine absurd ?_ hname
      unfold Json.numeralValue
      cases n.natural? with
      | none => rfl
      | some value => rfl

theorem name_decodes (n : Nat) : Json.Decodes name (Json.valueAt n) name? := by
  intro cs
  show Json.Agrees name? ((Json.valueAt n).read cs) (readName cs)
  unfold readName
  split
  · next back hskip =>
    rw [Json.read_valueAt_of_scalar n hskip (by decide) (by decide)]
    cases hread : Json.readScalar ('n' :: back) with
    | error flaw => exact ⟨flaw, rfl⟩
    | ok first =>
      obtain ⟨value, rest⟩ := first
      obtain ⟨-, rfl⟩ := Json.of_readLiteral hread
      rfl
  · next back hskip =>
    rw [Json.read_valueAt_of_scalar n hskip (by decide) (by decide), Json.readScalar]
    cases Json.readChars back with
    | error flaw => exact ⟨flaw, rfl⟩
    | ok first => rfl
  · next hnull hquote =>
    cases hplain : (Json.valueAt n).read cs with
    | error flaw => exact ⟨_, rfl⟩
    | ok first =>
      obtain ⟨value, rest⟩ := first
      have hname : name? value = none := by
        by_contra hsome
        obtain ⟨text, hskip, hspells⟩ := Json.exists_spells_of_read hplain
        obtain ⟨back, rfl | rfl⟩ := Spells.exists_name hspells hsome
        · exact hnull _ hskip
        · exact hquote _ hskip
      rw [Json.Agrees, hname, Json.otherType_of_read hplain]
      rfl

end Outside

/-! ## Objects -/

/-- Members that name a variant still do without the last of them. -/
theorem Members.nameable_of_append {front back : Members} (h : Members.nameable (front ++ back)) :
    front.nameable := by
  rw [Members.nameable_iff, Members.valuesAt_append] at h
  rw [Members.nameable_iff]
  rcases h with h | ⟨value, h, hvalue⟩
  · exact .inl (List.append_eq_nil_iff.1 h).1
  · rcases List.append_eq_singleton_iff.1 h with ⟨hnil, -⟩ | ⟨hone, -⟩
    · exact .inl hnil
    · exact .inr ⟨value, hone, hvalue⟩

theorem Members.valuesAt_of_any_eq_false {key : String} {ms : Members}
    (h : ms.any (·.1 = key) = false) : ms.valuesAt key = [] := by
  have hfilter : ms.filter (·.1 = key) = [] :=
    List.filter_eq_nil_iff.2 (List.any_eq_false.1 h)
  rw [Members.valuesAt, hfilter, List.map_nil]

theorem Members.nameable_append_of_ne {front : Members} {m : String × Json} (hm : m.1 ≠ "type") :
    Members.nameable (front ++ [m]) = front.nameable := by
  simp [Members.nameable, Members.valuesAt, hm]

namespace Outside

/-- Members behind others, if they name a variant together with them. -/
def named? (before ms : Members) : Option Members :=
  if Members.nameable (before ++ ms) then some ms else none

/-- A member behind others, if they name a variant with it. -/
def namedMember? (before : Members) (m : String × Json) : Option (String × Json) :=
  if Members.nameable (before ++ [m]) then some m else none

/-- The first name is decoded, and a second one is not. -/
theorem namedMember?_type {before : Members} (h : before.valuesAt "type" = []) (value : Json) :
    namedMember? before ("type", value) = (name? value).map ("type", ·) := by
  have hvalues : Members.valuesAt "type" (before ++ [("type", value)]) = [value] := by
    rw [Members.valuesAt_append, h]
    rfl
  rw [namedMember?, Members.nameable, hvalues]
  cases value with
  | null => rfl
  | string s => rfl
  | _ => rfl

theorem namedMember?_repeated {before : Members} (h : before.any (·.1 = "type") = true)
    (value : Json) : namedMember? before ("type", value) = none := by
  rw [namedMember?, if_neg]
  intro hnameable
  obtain ⟨hany, -⟩ := nameable_split rfl hnameable
  rw [h] at hany
  cases hany

theorem namedMember?_of_ne {before : Members} (hbefore : before.nameable = true)
    {m : String × Json} (hm : m.1 ≠ "type") : namedMember? before m = some m := by
  rw [namedMember?, Members.nameable_append_of_ne hm, if_pos hbefore]

theorem key_of_plainMember {n : Nat} {before : Members} {key : String} {cs rest : List Char}
    {m : String × Json}
    (h : (Json.plainMember (Json.valueAt n) before key).read cs = .ok (m, rest)) : m.1 = key := by
  obtain ⟨-, -, -, value, -, -, -, -, rfl⟩ := Json.of_plainMember (Json.recognizes_valueAt n) h
  rfl

theorem member_decodes_repeated (n : Nat) {before : Members}
    (hany : before.any (·.1 = "type") = true) :
    Json.Decodes (member (Json.valueAt n) before "type")
      (Json.plainMember (Json.valueAt n) before "type") (namedMember? before.reverse) := by
  have hrepeated : member (Json.valueAt n) before "type" = repeatedName.map ("type", ·) := by
    rw [member, if_pos rfl, if_pos hany]
  intro cs
  rw [hrepeated]
  cases hread : (Json.plainMember (Json.valueAt n) before "type").read cs with
  | error flaw => exact ⟨.mistyped, rfl⟩
  | ok first =>
    obtain ⟨⟨key, value⟩, rest⟩ := first
    obtain rfl : key = "type" := key_of_plainMember hread
    rw [← List.any_reverse] at hany
    rw [Json.Agrees, namedMember?_repeated hany]
    rfl

theorem member_decodes_first (n : Nat) {before : Members}
    (hany : ¬ before.any (·.1 = "type") = true) :
    Json.Decodes (member (Json.valueAt n) before "type")
      (Json.plainMember (Json.valueAt n) before "type") (namedMember? before.reverse) := by
  have hnone : Members.valuesAt "type" before.reverse = [] := by
    apply Members.valuesAt_of_any_eq_false
    rw [List.any_reverse]
    exact Bool.eq_false_iff.2 hany
  have hfirst : member (Json.valueAt n) before "type"
      = Json.behindColon (name.map ("type", ·)) := by
    rw [member, if_pos rfl, if_neg hany]
  have hname := (name_decodes n).map ("type", ·)
  rw [hfirst]
  apply Json.Decodes.behindColon
  apply Json.Decodes.of_map
  simpa only [namedMember?_type hnone] using hname

theorem member_decodes_of_ne (n : Nat) {before : Members}
    (hbefore : Members.nameable before.reverse = true) {key : String} (hkey : key ≠ "type") :
    Json.Decodes (member (Json.valueAt n) before key) (Json.plainMember (Json.valueAt n) before key)
      (namedMember? before.reverse) := by
  have hother : member (Json.valueAt n) before key
      = Json.plainMember (Json.valueAt n) before key := by
    rw [member, if_neg hkey]
    rfl
  intro cs
  rw [hother]
  cases hread : (Json.plainMember (Json.valueAt n) before key).read cs with
  | error flaw => exact ⟨flaw, rfl⟩
  | ok first =>
    obtain ⟨m, rest⟩ := first
    have hm : m.1 ≠ "type" := key_of_plainMember hread ▸ hkey
    rw [Json.Agrees, namedMember?_of_ne hbefore hm]
    rfl

/-- Three kinds of members: a second name, the first one, and anything else. -/
theorem member_decodes (n : Nat) {before : Members}
    (hbefore : Members.nameable before.reverse = true) (key : String) :
    Json.Decodes (member (Json.valueAt n) before key) (Json.plainMember (Json.valueAt n) before key)
      (namedMember? before.reverse) := by
  by_cases hkey : key = "type"
  · subst hkey
    by_cases hany : before.any (·.1 = "type") = true
    · exact member_decodes_repeated n hany
    · exact member_decodes_first n hany
  · exact member_decodes_of_ne n hbefore hkey

/-- A member is read if it goes with the members before it, and mistyped if not. -/
theorem member_cases {n : Nat} {before : Members} (hbefore : Members.nameable before.reverse = true)
    {key : String} {cs rest : List Char} {m : String × Json}
    (h : (Json.plainMember (Json.valueAt n) before key).read cs = .ok (m, rest)) :
    (Members.nameable (before.reverse ++ [m]) = true ∧
        (member (Json.valueAt n) before key).read cs = .ok (m, rest)) ∨
      (¬ Members.nameable (before.reverse ++ [m]) = true ∧
        (member (Json.valueAt n) before key).read cs = .error .mistyped) := by
  have hstrict := (member_decodes n hbefore key).of_ok h
  by_cases hm : Members.nameable (before.reverse ++ [m]) = true
  · rw [namedMember?, if_pos hm] at hstrict
    exact .inl ⟨hm, hstrict⟩
  · rw [namedMember?, if_neg hm] at hstrict
    exact .inr ⟨hm, hstrict⟩

/-- The invariant is that the members before the next one name a variant. -/
theorem readSomeMembers_agrees (n : Nat) {before : Members}
    (hbefore : Members.nameable before.reverse = true) (cs : List Char) :
    Json.Agrees (named? before.reverse)
      (Json.readSomeMembers (Json.plainMember (Json.valueAt n)) before cs)
      (Json.readSomeMembers (member (Json.valueAt n)) before cs) := by
  fun_induction Json.readSomeMembers (Json.plainMember (Json.valueAt n)) before cs with
  | case1 before cs flaw hkey =>
    exact ⟨flaw, by rw [Json.readSomeMembers_eq, hkey]⟩
  | case2 before cs key rest hkey flaw hplain =>
    obtain ⟨flaw', hstrict⟩ := (member_decodes n hbefore key).of_error hplain
    exact ⟨flaw', by rw [Json.readSomeMembers_eq, hkey]; simp only [hstrict]⟩
  | case3 before cs key rest hkey m rest' hplain _ rest'' hclose =>
    rw [Json.readSomeMembers_eq, hkey]
    rcases member_cases hbefore hplain with ⟨hm, hstrict⟩ | ⟨hm, hstrict⟩
    · simp only [hstrict, hclose, Json.Agrees, named?, if_pos hm]
      rfl
    · simp only [hstrict, Json.Agrees, named?, if_neg hm]
      rfl
  | case4 before cs key rest hkey m rest' hplain _ rest'' hcomma flaw hmore ih =>
    rw [Json.readSomeMembers_eq, hkey]
    rcases member_cases hbefore hplain with ⟨hm, hstrict⟩ | ⟨hm, hstrict⟩
    · rw [hmore, List.reverse_cons] at ih
      obtain ⟨flaw', hfurther⟩ := ih hm
      exact ⟨flaw', by simp only [hstrict, hcomma, hfurther]⟩
    · exact ⟨.mistyped, by simp only [hstrict]⟩
  | case5 before cs key rest hkey m rest' hplain _ rest'' hcomma more rest₃ hmore ih =>
    have hsplit : before.reverse ++ m :: more = before.reverse ++ [m] ++ more := by simp
    rw [Json.readSomeMembers_eq, hkey]
    rcases member_cases hbefore hplain with ⟨hm, hstrict⟩ | ⟨hm, hstrict⟩
    · rw [hmore, List.reverse_cons] at ih
      have hfurther : Json.readSomeMembers (member (Json.valueAt n)) (m :: before) rest''
          = Json.decoded (named? (before.reverse ++ [m]) more) rest₃ := ih hm
      simp only [hstrict, hcomma, hfurther, Json.Agrees, named?, hsplit]
      by_cases hall : Members.nameable (before.reverse ++ [m] ++ more) = true
      · rw [if_pos hall, if_pos hall]
        rfl
      · rw [if_neg hall, if_neg hall]
        rfl
    · have hall : ¬ Members.nameable (before.reverse ++ m :: more) = true := by
        rw [hsplit]
        exact fun h => hm (Members.nameable_of_append h)
      simp only [hstrict, Json.Agrees, named?, if_neg hall]
      rfl
  | case6 before cs key rest hkey m rest' hplain _ hclose hcomma =>
    rw [Json.readSomeMembers_eq, hkey]
    rcases member_cases hbefore hplain with ⟨hm, hstrict⟩ | ⟨hm, hstrict⟩
    · exact ⟨Json.misfit (Json.skipRoom rest'), by simp only [hstrict]⟩
    · exact ⟨.mistyped, by simp only [hstrict]⟩

theorem readMembers_agrees (n : Nat) (cs : List Char) :
    Json.Agrees (named? []) (Json.readMembers (Json.plainMember (Json.valueAt n)) cs)
      (Json.readMembers (member (Json.valueAt n)) cs) := by
  unfold Json.readMembers
  split
  · exact ⟨.ended, rfl⟩
  · rfl
  · exact @readSomeMembers_agrees n [] rfl _

/-- The members of an object that describes a variant. -/
def members? : Json → Option Members
  | .object ms => named? [] ms
  | _ => none

theorem object_decodes (n : Nat) :
    Json.Decodes (object (Json.valueAt n)) (Json.valueAt (n + 1)) members? := by
  intro cs
  show Json.Agrees members? ((Json.valueAt (n + 1)).read cs) (readObject (Json.valueAt n) cs)
  unfold readObject
  split
  · next rest hbrace =>
    have hmembers := readMembers_agrees n rest
    have hvalue : (Json.valueAt (n + 1)).read cs = Json.readValue (Json.valueAt n) cs := rfl
    rw [hvalue, Json.readValue, hbrace]
    cases hplain : Json.readMembers (Json.plainMember (Json.valueAt n)) rest with
    | error flaw =>
      rw [hplain] at hmembers
      simp only [hplain]
      exact hmembers
    | ok first =>
      rw [hplain] at hmembers
      simp only [hplain]
      exact hmembers
  · next hbrace =>
    cases hplain : (Json.valueAt (n + 1)).read cs with
    | error flaw => exact ⟨_, rfl⟩
    | ok first =>
      obtain ⟨value, rest⟩ := first
      have hmembers : members? value = none := by
        obtain ⟨text, hskip, hspells⟩ := Json.exists_spells_of_read hplain
        cases value with
        | object ms =>
          obtain ⟨back, rfl⟩ := hspells.exists_brace
          exact absurd hskip (hbrace _)
        | _ => rfl
      rw [Json.Agrees, hmembers, Json.otherType_of_read hplain]
      rfl

theorem variant_decodes (n : Nat) :
    Json.Decodes ((object (Json.valueAt n)).map Variant.ofMembers) (Json.valueAt (n + 1))
      Variant.ofJson? := by
  have hofJson : (fun value => (members? value).map Variant.ofMembers) = Variant.ofJson? := by
    funext value
    cases value with
    | object ms =>
      rw [members?, named?, Variant.ofJson?, List.nil_append]
      split <;> rfl
    | _ => rfl
  rw [← hofJson]
  exact (object_decodes n).map Variant.ofMembers

end Outside

/-- The type expression that a JSON value describes. -/
def TypeExpr.ofJson? : Json → Option TypeExpr
  | .array items => decodeVariants items
  | _ => none

theorem decodeVariants_eq_mapM (items : List Json) :
    decodeVariants items = items.mapM Variant.ofJson? := by
  induction items with
  | nil => rfl
  | cons item rest ih => rw [decodeVariants, ih, List.mapM_cons]

namespace Outside

theorem array_decodes {n : Nat} {variant : CharReader Variant}
    (h : Json.Decodes variant (Json.valueAt n) Variant.ofJson?) :
    Json.Decodes (array variant) (Json.valueAt (n + 1)) TypeExpr.ofJson? := by
  intro cs
  show Json.Agrees TypeExpr.ofJson? ((Json.valueAt (n + 1)).read cs) (readArray variant cs)
  unfold readArray
  split
  · next rest hbracket =>
    have hitems := Json.readItems_agrees h rest
    have hvalue : (Json.valueAt (n + 1)).read cs = Json.readValue (Json.valueAt n) cs := rfl
    rw [hvalue, Json.readValue, hbracket]
    cases hplain : Json.readItems (Json.valueAt n) rest with
    | error flaw =>
      rw [hplain] at hitems
      simp only [hplain]
      exact hitems
    | ok first =>
      obtain ⟨items, back⟩ := first
      simp only [hplain, Json.Agrees, TypeExpr.ofJson?, decodeVariants_eq_mapM] at hitems ⊢
      exact hitems
  · next hbracket =>
    cases hplain : (Json.valueAt (n + 1)).read cs with
    | error flaw => exact ⟨_, rfl⟩
    | ok first =>
      obtain ⟨value, rest⟩ := first
      have hitems : TypeExpr.ofJson? value = none := by
        obtain ⟨text, hskip, hspells⟩ := Json.exists_spells_of_read hplain
        cases value with
        | array items =>
          obtain ⟨back, rfl⟩ := hspells.exists_bracket
          exact absurd hskip (hbracket _)
        | _ => rfl
      rw [Json.Agrees, hitems, Json.otherType_of_read hplain]
      rfl

/-- The document's array and a variant's object are two of the levels that may be open. -/
theorem document_decodes :
    Json.Decodes document (Json.valueAt Json.depthLimit) TypeExpr.ofJson? :=
  array_decodes (variant_decodes (Json.depthLimit - 2))

end Outside

/-! ## Documents -/

variable {text : String}

/-- A document is decoded as its value is. -/
theorem TypeExpr.ofJsonText_of_read {value : Json} (h : Json.read text = .ok value) :
    ofJsonText text = (match ofJson? value with
      | some of => .ok of
      | none => .error .mistyped) := by
  unfold Json.read Json.readDocument at h
  split at h
  · cases h
  next v rest hread =>
  split at h
  · next hroom =>
    cases h
    have hstrict := Outside.document_decodes.of_ok hread
    rw [ofJsonText, Json.readDocument, hstrict]
    cases ofJson? value with
    | none => rfl
    | some of => simp only [Json.decoded, hroom, if_true]
  · cases h

/-- What is no document, or too deep, is not decoded. -/
theorem TypeExpr.ofJsonText_of_flaw {flaw : Flaw} (h : Json.read text = .error flaw) :
    ∃ flaw', ofJsonText text = .error flaw' := by
  unfold Json.read Json.readDocument at h
  split at h
  · next hread =>
    obtain ⟨flaw', hstrict⟩ := Outside.document_decodes.of_error hread
    exact ⟨flaw', by rw [ofJsonText, Json.readDocument, hstrict]⟩
  next v rest hread =>
  split at h
  · cases h
  · next hroom =>
    have hstrict := Outside.document_decodes.of_ok hread
    rw [ofJsonText, Json.readDocument, hstrict]
    cases ofJson? v with
    | none => exact ⟨.mistyped, rfl⟩
    | some of => exact ⟨.malformed, by simp only [Json.decoded, if_neg hroom]⟩

/-- Decoding succeeds just on the documents, not too deep, whose values describe type
    expressions. -/
theorem TypeExpr.ofJsonText_eq_ok_iff_ofJson? {of : TypeExpr} :
    ofJsonText text = .ok of ↔
      ∃ value, Json.IsDocument text value ∧ value.depth ≤ Json.depthLimit ∧
        ofJson? value = some of := by
  constructor
  · intro h
    cases hread : Json.read text with
    | error flaw =>
      obtain ⟨flaw', hflaw⟩ := ofJsonText_of_flaw hread
      rw [hflaw] at h
      cases h
    | ok value =>
      obtain ⟨hdocument, hdepth⟩ := Json.read_eq_ok_iff.1 hread
      refine ⟨value, hdocument, hdepth, ?_⟩
      rw [ofJsonText_of_read hread] at h
      split at h
      · next hof =>
        cases h
        exact hof
      · cases h
  · rintro ⟨value, hdocument, hdepth, hof⟩
    rw [ofJsonText_of_read (Json.read_eq_ok_iff.2 ⟨hdocument, hdepth⟩), hof]

end TypeNotation
