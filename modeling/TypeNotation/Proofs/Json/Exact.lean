import TypeNotation.Proofs.Json.Judge
import TypeNotation.Proofs.Json.Lexical

set_option autoImplicit false

/-! # Reading JSON exactly

A reader of values takes off what the grammar says, behind any room, as long as what it spells is
not too deep. Arrays and objects are read so if their parts are, and values by induction on how many
arrays and objects may still be opened. So a text is read as a value just if it is a document with
that value, and the value is not too deep (`read_eq_ok_iff`). -/

namespace TypeNotation.Json

/-- A reader takes off just what spells something, and any room before it. -/
structure Recognizes {α : Type} (reader : CharReader α) (spells : List Char → α → Prop) :
    Prop where
  of_read {cs rest : List Char} {a : α} (h : reader.read cs = .ok (a, rest)) :
    ∃ room text, AllRoom room ∧ cs = room ++ (text ++ rest) ∧ spells text a
  read_on {room text rest : List Char} {a : α} (hroom : AllRoom room) (h : spells text a)
    (hrest : EndsNumber rest) : reader.read (room ++ (text ++ rest)) = .ok (a, rest)

variable {α : Type} {spells : List Char → α → Prop} {cs rest : List Char}

/-! ## Room -/

theorem exists_room (cs : List Char) : ∃ room, AllRoom room ∧ cs = room ++ skipRoom cs := by
  refine ⟨cs.takeWhile isRoom, ?_, List.takeWhile_append_dropWhile.symm⟩
  exact List.all_eq_true.1 List.all_takeWhile

theorem skipRoom_eq_nil {room : List Char} (h : AllRoom room) : skipRoom room = [] := by
  rw [← List.append_nil room, skipRoom_append h]
  rfl

theorem endsNumber_nil : EndsNumber [] :=
  ⟨nofun, nofun⟩

/-- Neither room nor what may stand behind a value belongs to a number. -/
theorem endsNumber_room_append {room : List Char} (h : AllRoom room) (hrest : EndsNumber rest) :
    EndsNumber (room ++ rest) := by
  cases room with
  | nil => exact hrest
  | cons c back =>
    have hc : c = ' ' ∨ c = '\t' ∨ c = '\n' ∨ c = '\r' := by
      simpa [isRoom, or_assoc] using h c List.mem_cons_self
    rcases hc with rfl | rfl | rfl | rfl
    all_goals simp [EndsNumber, NoDigit, Char.isDigit]

theorem endsNumber_comma (cs : List Char) : EndsNumber (',' :: cs) := by
  simp [EndsNumber, NoDigit, Char.isDigit]

theorem endsNumber_bracket (cs : List Char) : EndsNumber (']' :: cs) := by
  simp [EndsNumber, NoDigit, Char.isDigit]

theorem endsNumber_brace (cs : List Char) : EndsNumber ('}' :: cs) := by
  simp [EndsNumber, NoDigit, Char.isDigit]

/-! ## Parts -/

theorem SpellsParts.room_append {room : List Char} {as : List α} (hroom : AllRoom room)
    (h : SpellsParts spells cs as) : SpellsParts spells (room ++ cs) as := by
  have hboth : ∀ before, AllRoom before → AllRoom (room ++ before) := by
    intro before hbefore c hc
    rcases List.mem_append.1 hc with hc | hc
    · exact hroom c hc
    · exact hbefore c hc
  cases h with
  | last hbefore h hbehind =>
    rw [← List.append_assoc]
    exact .last (hboth _ hbefore) h hbehind
  | more hbefore h hbehind hrest =>
    rw [← List.append_assoc]
    exact .more (hboth _ hbefore) h hbehind hrest

/-- Behind the room in front of the first part that part begins. -/
theorem SpellsParts.exists_begin {as : List α} {begins : Char → Prop}
    (hbegins : ∀ text a, spells text a → ∃ c rest, text = c :: rest ∧ begins c)
    (h : SpellsParts spells cs as) :
    ∃ room c back, AllRoom room ∧ cs = room ++ c :: back ∧ begins c ∧
      SpellsParts spells (c :: back) as := by
  have hnil : AllRoom [] := allRoom_nil
  cases h with
  | last hbefore h hbehind =>
    obtain ⟨c, text, rfl, hc⟩ := hbegins _ _ h
    exact ⟨_, c, _, hbefore, rfl, hc, .last hnil h hbehind⟩
  | more hbefore h hbehind hrest =>
    obtain ⟨c, text, rfl, hc⟩ := hbegins _ _ h
    exact ⟨_, c, _, hbefore, rfl, hc, .more hnil h hbehind hrest⟩

theorem spellsParts_and_iff {p : α → Prop} {as : List α} :
    SpellsParts (fun text a => spells text a ∧ p a) cs as ↔
      SpellsParts spells cs as ∧ ∀ a ∈ as, p a := by
  constructor
  · intro h
    induction h with
    | last hbefore h hbehind => exact ⟨.last hbefore h.1 hbehind, by simpa using h.2⟩
    | more hbefore h hbehind _ ih =>
      exact ⟨.more hbefore h.1 hbehind ih.1, List.forall_mem_cons.2 ⟨h.2, ih.2⟩⟩
  · rintro ⟨h, hall⟩
    induction h with
    | last hbefore h hbehind => exact .last hbefore ⟨h, hall _ List.mem_cons_self⟩ hbehind
    | more hbefore h hbehind _ ih =>
      obtain ⟨hhead, htail⟩ := List.forall_mem_cons.1 hall
      exact .more hbefore ⟨h, hhead⟩ hbehind (ih htail)

theorem spellsBracketed_and_iff {opening closing : Char} {p : α → Prop} {as : List α} :
    SpellsBracketed opening closing (fun text a => spells text a ∧ p a) cs as ↔
      SpellsBracketed opening closing spells cs as ∧ ∀ a ∈ as, p a := by
  constructor
  · intro h
    cases h with
    | empty h => exact ⟨.empty h, by simp⟩
    | parts h =>
      obtain ⟨hparts, hall⟩ := spellsParts_and_iff.1 h
      exact ⟨.parts hparts, hall⟩
  · rintro ⟨h, hall⟩
    cases h with
    | empty h => exact .empty h
    | parts h => exact .parts (spellsParts_and_iff.2 ⟨h, hall⟩)

theorem spellsMember_and (spells : List Char → α → Prop) (p : α → Prop) :
    SpellsMember (fun text a => spells text a ∧ p a)
      = fun text m => SpellsMember spells text m ∧ p m.2 := by
  funext cs m
  apply propext
  constructor
  · rintro ⟨hkey, hbefore, hbehind, h⟩
    exact ⟨.mk hkey hbefore hbehind h.1, h.2⟩
  · rintro ⟨⟨hkey, hbefore, hbehind, h⟩, hp⟩
    exact .mk hkey hbefore hbehind ⟨h, hp⟩

/-! ## Arrays -/

section Arrays

variable {item : CharReader α} (hitem : Recognizes item spells)

include hitem

theorem of_readSomeItems {as : List α} (h : readSomeItems item cs = .ok (as, rest)) :
    ∃ inner, cs = inner ++ ']' :: rest ∧ SpellsParts spells inner as := by
  fun_induction readSomeItems item cs generalizing as with
  | case1 => cases h
  | case2 cs a back hread _ _ back' hclose =>
    cases h
    obtain ⟨before, text, hbefore, rfl, htext⟩ := hitem.of_read hread
    obtain ⟨behind, hbehind, hback⟩ := exists_room back
    rw [hclose] at hback
    exact ⟨before ++ (text ++ behind), by simp [hback], .last hbefore htext hbehind⟩
  | case3 => cases h
  | case4 cs a back hread _ _ back' hcomma more back'' hmore ih =>
    cases h
    obtain ⟨before, text, hbefore, rfl, htext⟩ := hitem.of_read hread
    obtain ⟨behind, hbehind, hback⟩ := exists_room back
    rw [hcomma] at hback
    obtain ⟨inner, rfl, hinner⟩ := ih hmore
    exact ⟨before ++ (text ++ (behind ++ ',' :: inner)), by simp [hback],
      .more hbefore htext hbehind hinner⟩
  | case5 => cases h

theorem readSomeItems_on {inner : List Char} {as : List α} (h : SpellsParts spells inner as)
    (rest : List Char) : readSomeItems item (inner ++ ']' :: rest) = .ok (as, rest) := by
  induction h with
  | @last before text behind a hbefore htext hbehind =>
    have hread := hitem.read_on hbefore htext
      (endsNumber_room_append hbehind (endsNumber_bracket rest))
    rw [readSomeItems_eq, List.append_assoc, List.append_assoc, hread]
    simp only [skipRoom_append_cons hbehind (show isRoom ']' = false from rfl)]
  | @more before text behind inner a as hbefore htext hbehind _ ih =>
    have hread := hitem.read_on hbefore htext
      (endsNumber_room_append hbehind (endsNumber_comma (inner ++ ']' :: rest)))
    rw [readSomeItems_eq, List.append_assoc, List.append_assoc, List.append_assoc,
      List.cons_append, hread]
    simp only [skipRoom_append_cons hbehind (show isRoom ',' = false from rfl), ih]

theorem of_readItems {as : List α} (h : readItems item cs = .ok (as, rest)) :
    ∃ text, '[' :: cs = text ++ rest ∧ SpellsBracketed '[' ']' spells text as := by
  obtain ⟨room, hroom, hcs⟩ := exists_room cs
  unfold readItems at h
  split at h
  · cases h
  · next hclose =>
    cases h
    rw [hclose] at hcs
    exact ⟨'[' :: (room ++ [']']), by simp [hcs], .empty hroom⟩
  · obtain ⟨inner, hskip, hinner⟩ := of_readSomeItems hitem h
    rw [hskip] at hcs
    exact ⟨'[' :: (room ++ inner ++ [']']), by simp [hcs], .parts (hinner.room_append hroom)⟩

theorem readItems_on {text : List Char} {as : List α}
    (hbegins : ∀ text a, spells text a → BeginsItem text)
    (h : SpellsBracketed '[' ']' spells text as) (rest : List Char) :
    ∃ inner, text = '[' :: inner ∧ readItems item (inner ++ rest) = .ok (as, rest) := by
  cases h with
  | @empty room hroom =>
    refine ⟨room ++ [']'], rfl, ?_⟩
    rw [readItems, List.append_assoc, List.singleton_append,
      skipRoom_append_cons hroom (show isRoom ']' = false from rfl)]
    rfl
  | @parts inner as h =>
    obtain ⟨room, c, back, hroom, rfl, ⟨hc, hne⟩, hparts⟩ := h.exists_begin hbegins
    have hread := readSomeItems_on hitem hparts rest
    refine ⟨room ++ c :: back ++ [']'], rfl, ?_⟩
    rw [readItems, List.append_assoc, List.append_assoc, List.cons_append,
      List.singleton_append, skipRoom_append_cons hroom hc]
    split
    · next hnil => cases hnil
    · next hclose =>
      cases hclose
      exact absurd rfl hne
    · exact hread

end Arrays

/-! ## Objects -/

theorem of_readKey {key : String} (h : readKey cs = .ok (key, rest)) :
    ∃ room text, AllRoom room ∧ cs = room ++ (text ++ rest) ∧ SpellsString text key := by
  obtain ⟨room, hroom, hcs⟩ := exists_room cs
  unfold readKey at h
  split at h
  · next back hquote =>
    split at h
    · cases h
    next text back' hread =>
    cases h
    obtain ⟨inner, rfl, hinner⟩ := of_readChars hread
    rw [hquote] at hcs
    exact ⟨room, '"' :: (inner ++ ['"']), hroom, by simp [hcs], .mk hinner⟩
  · cases h

theorem readKey_on {room text : List Char} {key : String} (hroom : AllRoom room)
    (h : SpellsString text key) (rest : List Char) :
    readKey (room ++ (text ++ rest)) = .ok (key, rest) := by
  cases h with
  | @mk inner text h =>
    rw [readKey, List.cons_append, List.append_assoc, List.singleton_append,
      skipRoom_append_cons hroom rfl]
    simp only [readChars_on h]

section Objects

variable {inner : CharReader Json} {spells : List Char → Json → Prop}
  (hinner : Recognizes inner spells)

include hinner

theorem of_plainMember {before : List (String × Json)} {key : String} {m : String × Json}
    (h : (plainMember inner before key).read cs = .ok (m, rest)) :
    ∃ room room' text value, AllRoom room ∧ AllRoom room' ∧
      cs = room ++ ':' :: (room' ++ (text ++ rest)) ∧ spells text value ∧ m = (key, value) := by
  obtain ⟨room, hroom, hcs⟩ := exists_room cs
  change readBehindColon (inner.map (key, ·)) cs = _ at h
  unfold readBehindColon at h
  split at h
  · next back hcolon =>
    simp only [Reader.map] at h
    split at h
    · cases h
    next value back' hread =>
    cases h
    obtain ⟨room', text, hroom', rfl, htext⟩ := hinner.of_read hread
    rw [hcolon] at hcs
    exact ⟨room, room', text, value, hroom, hroom', hcs, htext, rfl⟩
  · cases h

theorem plainMember_on {room room' text : List Char} {value : Json} (hroom : AllRoom room)
    (hroom' : AllRoom room') (h : spells text value) (hrest : EndsNumber rest)
    (before : List (String × Json)) (key : String) :
    (plainMember inner before key).read (room ++ ':' :: (room' ++ (text ++ rest)))
      = .ok ((key, value), rest) := by
  change readBehindColon (inner.map (key, ·)) _ = _
  rw [readBehindColon, skipRoom_append_cons hroom rfl]
  simp only [Reader.map, hinner.read_on hroom' h hrest]

theorem of_readSomeMembers {before ms : List (String × Json)}
    (h : readSomeMembers (plainMember inner) before cs = .ok (ms, rest)) :
    ∃ text, cs = text ++ '}' :: rest ∧ SpellsParts (SpellsMember spells) text ms := by
  fun_induction readSomeMembers (plainMember inner) before cs generalizing ms with
  | case1 => cases h
  | case2 => cases h
  | case3 before cs key back hkey m back' hread _ back'' hclose =>
    cases h
    obtain ⟨room₁, text₁, hroom₁, rfl, htext₁⟩ := of_readKey hkey
    obtain ⟨room₂, room₃, text₂, value, hroom₂, hroom₃, rfl, htext₂, rfl⟩ :=
      of_plainMember hinner hread
    obtain ⟨behind, hbehind, hback⟩ := exists_room back'
    rw [hclose] at hback
    exact ⟨room₁ ++ ((text₁ ++ (room₂ ++ ':' :: (room₃ ++ text₂))) ++ behind), by simp [hback],
      .last hroom₁ (.mk htext₁ hroom₂ hroom₃ htext₂) hbehind⟩
  | case4 => cases h
  | case5 before cs key back hkey m back' hread _ back'' hcomma more back''' hmore ih =>
    cases h
    obtain ⟨room₁, text₁, hroom₁, rfl, htext₁⟩ := of_readKey hkey
    obtain ⟨room₂, room₃, text₂, value, hroom₂, hroom₃, rfl, htext₂, rfl⟩ :=
      of_plainMember hinner hread
    obtain ⟨behind, hbehind, hback⟩ := exists_room back'
    rw [hcomma] at hback
    obtain ⟨further, rfl, hfurther⟩ := ih hmore
    exact ⟨room₁ ++ ((text₁ ++ (room₂ ++ ':' :: (room₃ ++ text₂))) ++ (behind ++ ',' :: further)),
      by simp [hback], .more hroom₁ (.mk htext₁ hroom₂ hroom₃ htext₂) hbehind hfurther⟩
  | case6 => cases h

theorem readSomeMembers_on {text : List Char} {ms : List (String × Json)}
    (h : SpellsParts (SpellsMember spells) text ms) (before : List (String × Json))
    (rest : List Char) :
    readSomeMembers (plainMember inner) before (text ++ '}' :: rest) = .ok (ms, rest) := by
  induction h generalizing before with
  | @last room text behind m hroom htext hbehind =>
    have hends := endsNumber_room_append hbehind (endsNumber_brace rest)
    cases htext with
    | mk hkey hroom₂ hroom₃ hvalue =>
      rw [readSomeMembers_eq]
      simp only [List.append_assoc, List.cons_append, readKey_on hroom hkey,
        plainMember_on hinner hroom₂ hroom₃ hvalue hends,
        skipRoom_append_cons hbehind (show isRoom '}' = false from rfl)]
  | @more room text behind further m ms hroom htext hbehind _ ih =>
    have hends := endsNumber_room_append hbehind (endsNumber_comma (further ++ '}' :: rest))
    cases htext with
    | mk hkey hroom₂ hroom₃ hvalue =>
      rw [readSomeMembers_eq]
      simp only [List.append_assoc, List.cons_append, readKey_on hroom hkey,
        plainMember_on hinner hroom₂ hroom₃ hvalue hends,
        skipRoom_append_cons hbehind (show isRoom ',' = false from rfl), ih]

theorem of_readMembers {ms : List (String × Json)}
    (h : readMembers (plainMember inner) cs = .ok (ms, rest)) :
    ∃ text, '{' :: cs = text ++ rest ∧ SpellsBracketed '{' '}' (SpellsMember spells) text ms := by
  obtain ⟨room, hroom, hcs⟩ := exists_room cs
  unfold readMembers at h
  split at h
  · cases h
  · next hclose =>
    cases h
    rw [hclose] at hcs
    exact ⟨'{' :: (room ++ ['}']), by simp [hcs], .empty hroom⟩
  · obtain ⟨text, hskip, htext⟩ := of_readSomeMembers hinner h
    rw [hskip] at hcs
    exact ⟨'{' :: (room ++ text ++ ['}']), by simp [hcs], .parts (htext.room_append hroom)⟩

theorem readMembers_on {text : List Char} {ms : List (String × Json)}
    (h : SpellsBracketed '{' '}' (SpellsMember spells) text ms) (rest : List Char) :
    ∃ back, text = '{' :: back ∧
      readMembers (plainMember inner) (back ++ rest) = .ok (ms, rest) := by
  cases h with
  | @empty room hroom =>
    refine ⟨room ++ ['}'], rfl, ?_⟩
    rw [readMembers, List.append_assoc, List.singleton_append,
      skipRoom_append_cons hroom (show isRoom '}' = false from rfl)]
    rfl
  | @parts inside ms h =>
    have hquote : ∀ text m, SpellsMember spells text m → ∃ c back, text = c :: back ∧ c = '"' := by
      rintro text m ⟨⟨_⟩, -, -, -⟩
      exact ⟨'"', _, rfl, rfl⟩
    obtain ⟨room, c, back, hroom, rfl, rfl, hparts⟩ := h.exists_begin hquote
    have hread := readSomeMembers_on hinner hparts [] rest
    refine ⟨room ++ '"' :: back ++ ['}'], rfl, ?_⟩
    rw [readMembers, List.append_assoc, List.append_assoc, List.cons_append,
      List.singleton_append, skipRoom_append_cons hroom (show isRoom '"' = false from rfl)]
    exact hread

end Objects

/-! ## Values -/

theorem SpellsScalar.depth_eq_zero {text : List Char} {value : Json} (h : SpellsScalar text value) :
    value.depth = 0 := by
  cases h with
  | @number cs n h hfits =>
    unfold numeralValue
    cases n.natural? with
    | none => rfl
    | some value => rfl
  | _ => rfl

theorem Spells.beginsItem {text : List Char} {value : Json} (h : Spells text value) :
    BeginsItem text := by
  cases h with
  | scalar h =>
    obtain ⟨c, cs, htext, hc, hne, -⟩ := h.exists_cons
    exact ⟨c, cs, htext, hc, hne⟩
  | array h => cases h with | _ => exact ⟨'[', _, rfl, by decide⟩
  | object h => cases h with | _ => exact ⟨'{', _, rfl, by decide⟩

theorem exists_scalar_of_readScalar {value : Json} (n : Nat)
    (h : readScalar (skipRoom cs) = .ok (value, rest)) :
    ∃ room text, AllRoom room ∧ cs = room ++ (text ++ rest) ∧
      Spells text value ∧ value.depth ≤ n := by
  obtain ⟨room, hroom, hcs⟩ := exists_room cs
  obtain ⟨text, hskip, htext⟩ := of_readScalar h
  rw [hskip] at hcs
  exact ⟨room, text, hroom, hcs, .scalar htext, by simp [htext.depth_eq_zero]⟩

theorem read_valueAt_on_scalar {room text : List Char} {value : Json} (n : Nat)
    (hroom : AllRoom room) (h : SpellsScalar text value) (hrest : EndsNumber rest) :
    (valueAt n).read (room ++ (text ++ rest)) = .ok (value, rest) := by
  have hread := readScalar_on h hrest
  obtain ⟨c, back, rfl, hc, -, hbracket, hbrace⟩ := h.exists_cons
  have hskip : skipRoom (room ++ (c :: back ++ rest)) = c :: (back ++ rest) :=
    skipRoom_append_cons hroom hc _
  rw [read_valueAt_of_scalar n hskip hbracket hbrace]
  exact hread

theorem recognizes_valueAt_zero :
    Recognizes (valueAt 0) fun text value => Spells text value ∧ value.depth ≤ 0 where
  of_read {cs rest value} h := by
    change readFlat cs = _ at h
    unfold readFlat at h
    split at h
    · cases h
    · cases h
    · exact exists_scalar_of_readScalar 0 h
  read_on {room text rest value} hroom h hrest := by
    obtain ⟨hspells, hdepth⟩ := h
    cases hspells with
    | scalar h => exact read_valueAt_on_scalar 0 hroom h hrest
    | array h => cases hdepth
    | object h => cases hdepth

section Nested

variable {n : Nat}
  (ih : Recognizes (valueAt n) fun text value => Spells text value ∧ value.depth ≤ n)

include ih

theorem of_readValue {value : Json} (h : readValue (valueAt n) cs = .ok (value, rest)) :
    ∃ room text, AllRoom room ∧ cs = room ++ (text ++ rest) ∧
      Spells text value ∧ value.depth ≤ n + 1 := by
  obtain ⟨room, hroom, hcs⟩ := exists_room cs
  unfold readValue at h
  split at h
  · next back hbracket =>
    split at h
    · cases h
    next items back' hitems =>
    cases h
    obtain ⟨text, htext, hspells⟩ := of_readItems ih hitems
    obtain ⟨harray, hall⟩ := spellsBracketed_and_iff.1 hspells
    rw [hbracket, htext] at hcs
    exact ⟨room, text, hroom, hcs, .array harray, Nat.succ_le_succ (itemsDepth_le_iff.2 hall)⟩
  · next back hbrace =>
    split at h
    · cases h
    next members back' hmembers =>
    cases h
    obtain ⟨text, htext, hspells⟩ := of_readMembers ih hmembers
    rw [spellsMember_and] at hspells
    obtain ⟨hobject, hall⟩ := spellsBracketed_and_iff.1 hspells
    rw [hbrace, htext] at hcs
    exact ⟨room, text, hroom, hcs, .object hobject, Nat.succ_le_succ (membersDepth_le_iff.2 hall)⟩
  · exact exists_scalar_of_readScalar (n + 1) h

theorem readValue_on_array {room text : List Char} {items : List Json} (hroom : AllRoom room)
    (h : SpellsBracketed '[' ']' Spells text items) (hdepth : itemsDepth items ≤ n)
    (rest : List Char) :
    readValue (valueAt n) (room ++ (text ++ rest)) = .ok (array items, rest) := by
  have hspells := spellsBracketed_and_iff.2 ⟨h, itemsDepth_le_iff.1 hdepth⟩
  obtain ⟨back, rfl, hread⟩ := readItems_on ih (fun _ _ h => h.1.beginsItem) hspells rest
  rw [readValue, List.cons_append, skipRoom_append_cons hroom rfl]
  simp only [hread]

theorem readValue_on_object {room text : List Char} {members : List (String × Json)}
    (hroom : AllRoom room) (h : SpellsBracketed '{' '}' (SpellsMember Spells) text members)
    (hdepth : membersDepth members ≤ n) (rest : List Char) :
    readValue (valueAt n) (room ++ (text ++ rest)) = .ok (object members, rest) := by
  have hspells := spellsBracketed_and_iff.2 ⟨h, membersDepth_le_iff.1 hdepth⟩
  rw [← spellsMember_and Spells fun value => value.depth ≤ n] at hspells
  obtain ⟨back, rfl, hread⟩ := readMembers_on ih hspells rest
  rw [readValue, List.cons_append, skipRoom_append_cons hroom rfl]
  simp only [hread]

theorem recognizes_valueAt_succ :
    Recognizes (valueAt (n + 1)) fun text value => Spells text value ∧ value.depth ≤ n + 1 where
  of_read h := of_readValue ih h
  read_on {room text rest value} hroom h hrest := by
    obtain ⟨hspells, hdepth⟩ := h
    cases hspells with
    | scalar h => exact read_valueAt_on_scalar (n + 1) hroom h hrest
    | array h => exact readValue_on_array ih hroom h (Nat.le_of_succ_le_succ hdepth) rest
    | object h => exact readValue_on_object ih hroom h (Nat.le_of_succ_le_succ hdepth) rest

end Nested

/-- Induction on how many arrays and objects may be opened: what is read inside of one is read with
    one less. -/
theorem recognizes_valueAt (n : Nat) :
    Recognizes (valueAt n) fun text value => Spells text value ∧ value.depth ≤ n := by
  induction n with
  | zero => exact recognizes_valueAt_zero
  | succ n ih => exact recognizes_valueAt_succ ih

/-- A text is read as a value just if it is a document that spells it and the value is not too
    deep. -/
theorem read_eq_ok_iff {text : String} {value : Json} :
    read text = .ok value ↔ IsDocument text value ∧ value.depth ≤ depthLimit := by
  have hvalue := recognizes_valueAt depthLimit
  constructor
  · intro h
    unfold read readDocument at h
    split at h
    · cases h
    next v rest hread =>
    split at h
    · next hrest =>
      cases h
      obtain ⟨room, cs, hroom, htext, hspells, hdepth⟩ := hvalue.of_read hread
      obtain ⟨behind, hbehind, hback⟩ := exists_room rest
      rw [hrest, List.append_nil] at hback
      subst hback
      exact ⟨⟨room, cs, rest, hroom, hbehind, htext, hspells⟩, hdepth⟩
    · cases h
  · rintro ⟨⟨before, cs, behind, hbefore, hbehind, htext, hspells⟩, hdepth⟩
    have hends : EndsNumber behind := by
      simpa using endsNumber_room_append hbehind endsNumber_nil
    have hread := hvalue.read_on hbefore ⟨hspells, hdepth⟩ hends
    rw [read, readDocument, htext, hread]
    simp only [skipRoom_eq_nil hbehind, if_true]

end TypeNotation.Json
