import TypeNotation.Proofs.Json.Depth
import TypeNotation.Proofs.Json.Strings
import TypeNotation.Proofs.Json.Style

set_option autoImplicit false

/-! # What readers make of what is written

A reader judges a text if it makes a certain value of it or finds it malformed, whatever room stands
before it and whatever follows. What the readers of arrays and objects make of parts that are
written in some style is derived from how their parts are judged; so a value without numbers is
read back in each style if it is not too deep, and is malformed otherwise. -/

namespace TypeNotation.Json

variable {α β : Type}

/-- Behind any room the reader makes `a` of the text if it is to be accepted, and finds it malformed
    if not. -/
def Judges (reader : CharReader α) (text : List Char) (accept : Bool) (a : α) : Prop :=
  ∀ room rest, AllRoom room →
    reader.read (room ++ (text ++ rest))
      = if accept then .ok (a, rest) else .error .malformed

theorem Judges.map {reader : CharReader α} {text : List Char} {accept : Bool} {a : α}
    (h : Judges reader text accept a) (f : α → β) : Judges (reader.map f) text accept (f a) := by
  intro room rest hroom
  simp only [Reader.map, h room rest hroom]
  cases accept with
  | true => rfl
  | false => rfl

/-! ## Room -/

theorem allRoom_nil : AllRoom [] := by
  simp [AllRoom]

theorem skipRoom_append {room : List Char} (h : AllRoom room) (cs : List Char) :
    skipRoom (room ++ cs) = skipRoom cs :=
  List.dropWhile_append_of_pos h

theorem skipRoom_cons {c : Char} (h : isRoom c = false) (cs : List Char) :
    skipRoom (c :: cs) = c :: cs := by
  simp [skipRoom, h]

theorem skipRoom_append_cons {room : List Char} (h : AllRoom room) {c : Char}
    (hc : isRoom c = false) (cs : List Char) : skipRoom (room ++ c :: cs) = c :: cs := by
  rw [skipRoom_append h, skipRoom_cons hc]

theorem skipRoom_further_nil (style : Style) (level : Nat) {closing : Char}
    (h : isRoom closing = false) (rest : List Char) :
    skipRoom (style.further level closing [] ++ rest) = closing :: rest := by
  rw [Style.further, List.append_assoc]
  exact skipRoom_append_cons (style.gap_room level) h rest

theorem skipRoom_further_cons (style : Style) (level : Nat) (closing : Char) (part : List Char)
    (parts : List (List Char)) (rest : List Char) :
    skipRoom (style.further level closing (part :: parts) ++ rest)
      = ',' ::
        (style.gap (level + 1) ++ (part ++ (style.further level closing parts ++ rest))) := by
  rw [Style.further, List.cons_append, skipRoom_cons rfl, List.append_assoc, List.append_assoc]

/-! ## Arrays -/

/-- `readSomeItems` without the bookkeeping of its termination. -/
theorem readSomeItems_eq (item : CharReader α) (cs : List Char) :
    readSomeItems item cs =
      match item.read cs with
      | .error flaw => .error flaw
      | .ok (a, rest) =>
        match skipRoom rest with
        | ']' :: rest => .ok ([a], rest)
        | ',' :: rest =>
          match readSomeItems item rest with
          | .error flaw => .error flaw
          | .ok (more, rest) => .ok (a :: more, rest)
        | rest => .error (misfit rest) := by
  rw [readSomeItems]
  split
  · next h => rw [h]
  · next a rest h =>
    simp only [h]
    split
    · next hroom => simp only [hroom]
    · next rest hroom =>
      cases hmore : readSomeItems item rest with
      | error flaw => simp only [hroom, hmore]
      | ok more => simp only [hroom, hmore]
    · next hclose hcomma =>
      split
      · next hroom => exact absurd hroom (hclose _)
      · next hroom => exact absurd hroom (hcomma _)
      · rfl

/-- The text does not look like the end of an array. -/
def BeginsItem (text : List Char) : Prop :=
  ∃ c cs, text = c :: cs ∧ isRoom c = false ∧ c ≠ ']'

section

variable (style : Style) (level : Nat) {item : CharReader α}
variable {text : β → List Char} {accept : β → Bool} {value : β → α}

/-- Induction on the items behind the first one. -/
theorem readSomeItems_further (x : β) (xs : List β)
    (h : ∀ y ∈ x :: xs, Judges item (text y) (accept y) (value y))
    {room : List Char} (hroom : AllRoom room) (rest : List Char) :
    readSomeItems item (room ++ (text x ++ (style.further level ']' (xs.map text) ++ rest)))
      = if (x :: xs).all accept then .ok ((x :: xs).map value, rest) else .error .malformed := by
  obtain ⟨hx, hxs⟩ := List.forall_mem_cons.1 h
  rw [readSomeItems_eq, hx _ _ hroom, List.all_cons]
  cases haccept : accept x with
  | false => rfl
  | true =>
    cases xs with
    | nil =>
      have hclose := skipRoom_further_nil style level (show isRoom ']' = false from rfl) rest
      simp only [if_true, List.map_nil, hclose]
      rfl
    | cons y ys =>
      have ih := readSomeItems_further y ys hxs (style.gap_room (level + 1)) rest
      simp only [if_true, List.map_cons, skipRoom_further_cons, ih, Bool.true_and]
      cases (y :: ys).all accept with
      | true => rfl
      | false => rfl

theorem readItems_inside (xs : List β)
    (h : ∀ x ∈ xs, Judges item (text x) (accept x) (value x))
    (hbegins : ∀ x ∈ xs, BeginsItem (text x)) (rest : List Char) :
    readItems item (style.inside level ']' (xs.map text) ++ rest)
      = if xs.all accept then .ok (xs.map value, rest) else .error .malformed := by
  cases xs with
  | nil => rfl
  | cons x xs =>
    obtain ⟨c, cs, htext, hc, hne⟩ := hbegins x List.mem_cons_self
    have hsome := readSomeItems_further style level x xs h allRoom_nil rest
    rw [List.map_cons, Style.inside, List.append_assoc, List.append_assoc, readItems,
      skipRoom_append (style.gap_room _), htext, List.cons_append, skipRoom_cons hc]
    rw [htext] at hsome
    split
    · next hnil => cases hnil
    · next hclose =>
      cases hclose
      exact absurd rfl hne
    · exact hsome

end

/-! ## Objects -/

theorem readKey_stringChars (key : String) {room : List Char} (hroom : AllRoom room)
    (rest : List Char) : readKey (room ++ (stringChars key ++ rest)) = .ok (key, rest) := by
  rw [readKey, stringChars_append, skipRoom_append_cons hroom rfl]
  simp only [readChars_flatMap_escape, String.ofList_toList]

/-- `readSomeMembers` without the bookkeeping of its termination. -/
theorem readSomeMembers_eq (member : MemberReader α) (before : List α) (cs : List Char) :
    readSomeMembers member before cs =
      match readKey cs with
      | .error flaw => .error flaw
      | .ok (key, rest) =>
        match (member before key).read rest with
        | .error flaw => .error flaw
        | .ok (a, rest) =>
          match skipRoom rest with
          | '}' :: rest => .ok ([a], rest)
          | ',' :: rest =>
            match readSomeMembers member (a :: before) rest with
            | .error flaw => .error flaw
            | .ok (more, rest) => .ok (a :: more, rest)
          | rest => .error (misfit rest) := by
  rw [readSomeMembers]
  split
  · next h => rw [h]
  · next key rest h =>
    simp only [h]
    split
    · next h => rw [h]
    · next a rest h =>
      simp only [h]
      split
      · next hroom => simp only [hroom]
      · next rest hroom =>
        cases hmore : readSomeMembers member (a :: before) rest with
        | error flaw => simp only [hroom, hmore]
        | ok more => simp only [hroom, hmore]
      · next hclose hcomma =>
        split
        · next hroom => exact absurd hroom (hclose _)
        · next hroom => exact absurd hroom (hcomma _)
        · rfl

section

variable (style : Style) (level : Nat) {member : MemberReader α}
variable {key : β → String} {text : β → List Char} {accept : β → Bool} {value : β → α}

/-- Induction on the members behind the first one. How a member is judged may depend on the members
    before it. -/
theorem readSomeMembers_further (x : β) (xs : List β) {before : List α}
    (h : ∀ front y back, x :: xs = front ++ y :: back →
      Judges (member ((front.map value).reverse ++ before) (key y)) (text y) (accept y) (value y))
    {room : List Char} (hroom : AllRoom room) (rest : List Char) :
    readSomeMembers member before
        (room ++ ((stringChars (key x) ++ text x)
          ++ (style.further level '}' (xs.map fun y => stringChars (key y) ++ text y) ++ rest)))
      = if (x :: xs).all accept then .ok ((x :: xs).map value, rest) else .error .malformed := by
  have hx := h [] x xs rfl [] (style.further level '}'
    (xs.map fun y => stringChars (key y) ++ text y) ++ rest) allRoom_nil
  simp only [List.map_nil, List.reverse_nil, List.nil_append] at hx
  rw [readSomeMembers_eq, List.append_assoc, readKey_stringChars (key x) hroom, List.all_cons]
  dsimp only
  rw [hx]
  cases haccept : accept x with
  | false => rfl
  | true =>
    cases xs with
    | nil =>
      have hclose := skipRoom_further_nil style level (show isRoom '}' = false from rfl) rest
      simp only [if_true, List.map_nil, hclose]
      rfl
    | cons y ys =>
      have hys : ∀ front z back, y :: ys = front ++ z :: back →
          Judges (member ((front.map value).reverse ++ (value x :: before)) (key z)) (text z)
            (accept z) (value z) := by
        intro front z back heq
        have hz := h (x :: front) z back (by rw [heq, List.cons_append])
        simpa using hz
      have ih := readSomeMembers_further y ys hys (style.gap_room (level + 1)) rest
      simp only [if_true, List.map_cons, skipRoom_further_cons, ih, Bool.true_and]
      cases (y :: ys).all accept with
      | true => rfl
      | false => rfl

theorem readMembers_inside (xs : List β)
    (h : ∀ front y back, xs = front ++ y :: back →
      Judges (member (front.map value).reverse (key y)) (text y) (accept y) (value y))
    (rest : List Char) :
    readMembers member
        (style.inside level '}' (xs.map fun y => stringChars (key y) ++ text y) ++ rest)
      = if xs.all accept then .ok (xs.map value, rest) else .error .malformed := by
  cases xs with
  | nil => rfl
  | cons x xs =>
    have hxs : ∀ front y back, x :: xs = front ++ y :: back →
        Judges (member ((front.map value).reverse ++ []) (key y)) (text y) (accept y)
          (value y) := by
      simpa only [List.append_nil] using h
    have hsome := readSomeMembers_further style level x xs hxs allRoom_nil rest
    rw [List.map_cons, Style.inside, List.append_assoc, List.append_assoc, readMembers,
      skipRoom_append (style.gap_room _), List.append_assoc, stringChars_append, skipRoom_cons rfl]
    rw [List.append_assoc, List.nil_append, stringChars_append] at hsome
    exact hsome

end

theorem Judges.behindColon {reader : CharReader α} {level : Nat} {style : Style} {value : Json}
    {accept : Bool} {a : α} (h : Judges reader (style.chars level value) accept a) :
    Judges (behindColon reader) (style.behindKey level value) accept a := by
  intro room rest hroom
  rw [← h style.afterColon rest style.afterColon_room]
  show readBehindColon reader _ = _
  rw [readBehindColon, Style.behindKey, List.cons_append, skipRoom_append_cons hroom rfl,
    List.append_assoc]
  rfl

/-! ## Values -/

theorem readScalar_scalarChars {value : Json} (hdepth : value.depth = 0) (h : value.Numberless)
    (rest : List Char) : readScalar (scalarChars value ++ rest) = .ok (value, rest) := by
  obtain rfl | ⟨b, rfl⟩ | ⟨s, rfl⟩ := eq_of_depth_eq_zero hdepth h
  · simp [scalarChars, readScalar, readLiteral, readWord]
  · cases b with
    | true => simp [scalarChars, readScalar, readLiteral, readWord]
    | false => simp [scalarChars, readScalar, readLiteral, readWord]
  · rw [scalarChars, stringChars_append, readScalar]
    simp only [readChars_flatMap_escape, String.ofList_toList]

theorem exists_scalarChars {value : Json} (hdepth : value.depth = 0) (h : value.Numberless) :
    ∃ c cs, scalarChars value = c :: cs ∧ isRoom c = false ∧ c ≠ ']' ∧ c ≠ '[' ∧ c ≠ '{' := by
  obtain rfl | ⟨b, rfl⟩ | ⟨s, rfl⟩ := eq_of_depth_eq_zero hdepth h
  · exact ⟨'n', ['u', 'l', 'l'], by simp [scalarChars], by decide⟩
  · cases b with
    | true => exact ⟨'t', ['r', 'u', 'e'], by simp [scalarChars], by decide⟩
    | false => exact ⟨'f', ['a', 'l', 's', 'e'], by simp [scalarChars], by decide⟩
  · exact ⟨'"', _, rfl, by decide⟩

theorem chars_of_depth_eq_zero (style : Style) (level : Nat) {value : Json}
    (h : value.depth = 0) : style.chars level value = scalarChars value := by
  cases value with
  | array items => exact absurd h (by simp [depth])
  | object members => exact absurd h (by simp [depth])
  | null => rfl
  | bool b => rfl
  | natural n => rfl
  | decimal spelling => rfl
  | string s => rfl

theorem beginsItem_chars (style : Style) (level : Nat) {value : Json} (h : value.Numberless) :
    BeginsItem (style.chars level value) := by
  by_cases hdepth : value.depth = 0
  · obtain ⟨c, cs, hchars, hroom, hne, -⟩ := exists_scalarChars hdepth h
    rw [chars_of_depth_eq_zero style level hdepth]
    exact ⟨c, cs, hchars, hroom, hne⟩
  · cases value with
    | array items => exact ⟨'[', _, rfl, by decide⟩
    | object members => exact ⟨'{', _, rfl, by decide⟩
    | null | bool | natural | decimal | string => exact absurd rfl hdepth

theorem read_valueAt_of_scalar (n : Nat) {cs rest : List Char} {c : Char}
    (h : skipRoom cs = c :: rest) (hbracket : c ≠ '[') (hbrace : c ≠ '{') :
    (valueAt n).read cs = readScalar (c :: rest) := by
  cases n with
  | zero =>
    show readFlat cs = _
    rw [readFlat, h]
    split
    · next heq => exact absurd (List.cons.inj heq).1 hbracket
    · next heq => exact absurd (List.cons.inj heq).1 hbrace
    · rfl
  | succ n =>
    show readValue (valueAt n) cs = _
    rw [readValue, h]
    split
    · next heq => exact absurd (List.cons.inj heq).1 hbracket
    · next heq => exact absurd (List.cons.inj heq).1 hbrace
    · rfl

theorem judges_scalar (style : Style) (n level : Nat) {value : Json} (hdepth : value.depth = 0)
    (h : value.Numberless) : Judges (valueAt n) (style.chars level value) true value := by
  intro room rest hroom
  rw [chars_of_depth_eq_zero style level hdepth]
  have hread := readScalar_scalarChars hdepth h rest
  obtain ⟨c, cs, hchars, hc, -, hbracket, hbrace⟩ := exists_scalarChars hdepth h
  rw [hchars, List.cons_append] at hread ⊢
  have hskip : skipRoom (room ++ c :: (cs ++ rest)) = c :: (cs ++ rest) :=
    skipRoom_append_cons hroom hc _
  rw [read_valueAt_of_scalar n hskip hbracket hbrace, hread, if_pos rfl]

theorem judges_valueAt_zero (style : Style) (level : Nat) {value : Json}
    (h : value.depth ≠ 0) : Judges (valueAt 0) (style.chars level value) false value := by
  intro room rest hroom
  show readFlat _ = _
  cases value with
  | array items =>
    rw [readFlat, Style.chars, List.cons_append, skipRoom_append_cons hroom rfl]
    rfl
  | object members =>
    rw [readFlat, Style.chars, List.cons_append, skipRoom_append_cons hroom rfl]
    rfl
  | null | bool | natural | decimal | string => exact absurd rfl h

/-- What is written for a value without numbers is read back where at least as many arrays and
    objects may be opened as the value is deep. Induction on how many may be opened. -/
theorem judges_valueAt (style : Style) (n level : Nat) {value : Json} (h : value.Numberless) :
    Judges (valueAt n) (style.chars level value) (value.depth ≤ n) value := by
  by_cases hdepth : value.depth = 0
  · simpa [hdepth] using judges_scalar style n level hdepth h
  cases n with
  | zero => simpa [hdepth] using judges_valueAt_zero style level hdepth
  | succ n =>
    intro room rest hroom
    show readValue _ _ = _
    cases value with
    | array items =>
      rw [Numberless, itemsNumberless_iff] at h
      have hitems := readItems_inside style level items
        (fun x hx => judges_valueAt style n (level + 1) (h x hx))
        (fun x hx => beginsItem_chars style (level + 1) (h x hx)) rest
      rw [readValue, Style.chars, Style.itemTexts_eq_map, List.cons_append,
        skipRoom_append_cons hroom rfl]
      simp only [hitems, all_depth_le, List.map_id', depth, Nat.add_le_add_iff_right]
      cases decide (itemsDepth items ≤ n) with
      | true => rfl
      | false => rfl
    | object members =>
      rw [Numberless, membersNumberless_iff] at h
      have hparts : ∀ front m back, members = front ++ m :: back →
          Judges (plainMember (valueAt n) (front.map id).reverse m.1)
            (style.behindKey (level + 1) m.2) (m.2.depth ≤ n) (id m) := by
        rintro front m back rfl
        have hm := h m (List.mem_append_right front List.mem_cons_self)
        exact ((judges_valueAt style n (level + 1) hm).map (m.1, ·)).behindColon
      have hmembers := readMembers_inside style level members hparts rest
      rw [readValue, Style.chars, Style.memberTexts_eq_map, List.cons_append,
        skipRoom_append_cons hroom rfl]
      simp only [hmembers, all_depth_le_members, List.map_id, depth, Nat.add_le_add_iff_right]
      cases decide (membersDepth members ≤ n) with
      | true => rfl
      | false => rfl
    | null | bool | natural | decimal | string => exact absurd rfl hdepth

end TypeNotation.Json
