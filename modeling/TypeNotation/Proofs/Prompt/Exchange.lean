import TypeNotation.Proofs.Prompt.Number
import TypeNotation.Proofs.Text.Lines

set_option autoImplicit false

/-! # What is written at the prompt

A conversation at the prompt is a list of exchanges, one for each line that is read: what the prompt
shows, the line, and the answer to it. Nothing is kept from line to line but two counts, of the
specifications and of the requests to toggle JSON, of the first only 32 bits and of the second only
whether it is odd (`respond_after`). So each exchange is settled by the lines before it
(`exchange_after`), and all that is written are the exchanges up to the request to quit
(`converse_after`). What the prompt shows is stated of the text itself, by `Counts`. -/

namespace TypeNotation

namespace Output

theorem append_assoc (a b c : Output) : a ++ b ++ c = a ++ (b ++ c) :=
  congrArg₂ Output.mk (String.append_assoc ..) (String.append_assoc ..)

@[simp]
theorem empty_append (a : Output) : empty ++ a = a :=
  congrArg₂ Output.mk (String.empty_append ..) (String.empty_append ..)

@[simp]
theorem append_empty (a : Output) : a ++ empty = a :=
  congrArg₂ Output.mk (String.append_empty ..) (String.append_empty ..)

end Output

namespace Prompt

/-! ## What a line asks for -/

/-- What is left of a line without the spaces around it. -/
def content (line : List Char) : String :=
  String.ofList (trim line)

/-- Whether a line asks to quit. -/
def quits (line : List Char) : Bool :=
  content line ∈ [":quit", ":q"]

/-- Whether a line asks for help. -/
def helps (line : List Char) : Bool :=
  content line ∈ [":help", ":h"]

/-- Whether a line asks to turn JSON on or off. -/
def toggles (line : List Char) : Bool :=
  content line ∈ [":json", ":j"]

/-- A specification is any line that is neither empty nor a command. -/
def specifies (line : List Char) : Bool :=
  content line ∉ ["", ":quit", ":q", ":help", ":h", ":json", ":j"]

variable {line : List Char}

theorem quits_iff : quits line = true ↔ Request.ofLine line = .quit := by
  unfold quits content Request.ofLine
  split <;> simp_all

theorem helps_iff : helps line = true ↔ Request.ofLine line = .help := by
  unfold helps content Request.ofLine
  split <;> simp_all

theorem toggles_iff : toggles line = true ↔ Request.ofLine line = .toggleJson := by
  unfold toggles content Request.ofLine
  split <;> simp_all

theorem content_of_ofLine {text : String} (h : Request.ofLine line = .spec text) :
    content line = text := by
  unfold Request.ofLine at h
  unfold content
  split at h <;> simp_all

theorem content_eq_empty_iff : content line = "" ↔ Request.ofLine line = .nothing := by
  unfold content Request.ofLine
  split <;> simp_all

theorem specifies_iff : specifies line = true ↔ Request.ofLine line = .spec (content line) := by
  unfold specifies content Request.ofLine
  split <;> simp_all

/-! ## The answer to a line -/

/-- The answer to a line, when JSON is shown or not. -/
inductive Answers (json : Bool) (line : List Char) : Output → Prop
  | quit (h : quits line = true) : Answers json line (.out "Goodbye!\n")
  | help (h : helps line = true) : Answers json line (.out helpText)
  | toggleOn (h : toggles line = true) (hjson : json = false) :
      Answers json line (.out "JSON output on\n")
  | toggleOff (h : toggles line = true) (hjson : json = true) :
      Answers json line (.out "JSON output off\n")
  | nothing (h : content line = "") : Answers json line .empty
  | shown {of : TypeExpr} {rest : List Lexeme} (h : specifies line = true) (hjson : json = true)
      (hread : TypeExpr.parse (content line) = .ok (of, rest)) :
      Answers json line (.out s!"result: {of.toJson.compact}\n")
  | written {of : TypeExpr} {rest : List Lexeme} (h : specifies line = true) (hjson : json = false)
      (hread : TypeExpr.parse (content line) = .ok (of, rest)) :
      Answers json line (.out s!"result: {of.text}\n")
  | refused {refusal : Refusal} (h : specifies line = true)
      (hread : TypeExpr.parse (content line) = .error refusal) :
      Answers json line (.err s!"error: {refusal.message}\n")

/-- The one answer that there is to a line is what a prompt responds, whatever it has counted. -/
theorem answers_iff (n : Int32) {json : Bool} {o : Output} :
    Answers json line o ↔ o = ((⟨n, json⟩ : Prompt).respond (Request.ofLine line)).1 := by
  constructor
  · intro h
    cases h with
    | quit h => rw [quits_iff.1 h]; rfl
    | help h => rw [helps_iff.1 h]; rfl
    | toggleOn h hjson => rw [toggles_iff.1 h, hjson]; rfl
    | toggleOff h hjson => rw [toggles_iff.1 h, hjson]; rfl
    | nothing h => rw [content_eq_empty_iff.1 h]; rfl
    | shown h hjson hread => rw [specifies_iff.1 h, respond, answer, hread, hjson]; rfl
    | written h hjson hread => rw [specifies_iff.1 h, respond, answer, hread, hjson]; rfl
    | refused h hread => rw [specifies_iff.1 h, respond, answer, hread]
  · rintro rfl
    cases hrequest : Request.ofLine line with
    | quit => exact .quit (quits_iff.2 hrequest)
    | help => exact .help (helps_iff.2 hrequest)
    | toggleJson =>
      cases json with
      | false => exact .toggleOn (toggles_iff.2 hrequest) rfl
      | true => exact .toggleOff (toggles_iff.2 hrequest) rfl
    | nothing => exact .nothing (content_eq_empty_iff.2 hrequest)
    | spec text =>
      obtain rfl := content_of_ofLine hrequest
      have hspec := specifies_iff.2 hrequest
      rw [respond, answer]
      cases hread : TypeExpr.parse (content line) with
      | error refusal => exact .refused hspec hread
      | ok result =>
        cases json with
        | false => exact .written hspec rfl hread
        | true => exact .shown hspec rfl hread

/-! ## One line after the other -/

/-- The prompt when some lines have been read, none of which quits: it has counted the
    specifications and shows JSON if it was asked to toggle an odd number of times. -/
def after (earlier : List (List Char)) : Prompt :=
  ⟨Int32.ofNat (1 + earlier.countP specifies), earlier.countP toggles % 2 == 1⟩

theorem add_one_mod_two (n : Nat) : ((n + 1) % 2 == 1) = !(n % 2 == 1) := by
  rcases Nat.mod_two_eq_zero_or_one n with h | h <;> simp [Nat.add_mod, h]

theorem after_append_singleton (earlier : List (List Char)) (line : List Char) :
    after (earlier ++ [line])
      = ⟨(after earlier).number + if specifies line = true then 1 else 0,
        if toggles line = true then !(after earlier).json else (after earlier).json⟩ := by
  simp only [after, List.countP_append, List.countP_singleton, ← Nat.add_assoc, Int32.ofNat_add]
  congr 1
  · split <;> rfl
  · split
    · exact add_one_mod_two _
    · rfl

/-- A line changes the prompt as it changes the two counts, unless it ends the conversation. -/
theorem respond_after (earlier : List (List Char)) (line : List Char) :
    ((after earlier).respond (Request.ofLine line)).2
      = if quits line = true then none else some (after (earlier ++ [line])) := by
  simp only [after_append_singleton, quits_iff, specifies_iff, toggles_iff]
  cases hrequest : Request.ofLine line with
  | spec text =>
    obtain rfl := content_of_ofLine hrequest
    simp [respond]
  | _ => simp [respond]

/-- A line that is read: what the prompt shows before it, and what it is answered. -/
structure Exchange where
  shown : String
  line : List Char
  reply : Output

/-- The exchanges while some lines are read. -/
def exchanges (p : Prompt) : List (List Char) → List Exchange
  | [] => []
  | line :: rest =>
    let (reply, next) := p.respond (Request.ofLine line)
    ⟨p.text, line, reply⟩ ::
      match next with
      | none => []
      | some p' => p'.exchanges rest

/-- The lines up to the first that quits, and that one. -/
def untilQuit (ls : List (List Char)) : List (List Char) :=
  ls.takeWhile (!quits ·) ++ (ls.dropWhile (!quits ·)).take 1

/-- All that is written in some exchanges. -/
def written : List Exchange → Output
  | [] => .empty
  | e :: es => .out e.shown ++ e.reply ++ written es

variable (earlier : List (List Char)) (line : List Char) (ls : List (List Char))

theorem respond_after_eq :
    (after earlier).respond (Request.ofLine line)
      = (((after earlier).respond (Request.ofLine line)).1,
        if quits line = true then none else some (after (earlier ++ [line]))) :=
  Prod.ext rfl (respond_after earlier line)

theorem exchanges_after_cons :
    (after earlier).exchanges (line :: ls)
      = ⟨(after earlier).text, line, ((after earlier).respond (Request.ofLine line)).1⟩ ::
        if quits line = true then [] else (after (earlier ++ [line])).exchanges ls := by
  rw [exchanges, respond_after_eq]
  by_cases hquits : quits line = true <;> simp [hquits]

theorem lines_exchanges_after :
    ((after earlier).exchanges ls).map (·.line) = untilQuit ls := by
  induction ls generalizing earlier with
  | nil => rfl
  | cons line ls ih =>
    rw [exchanges_after_cons, List.map_cons]
    by_cases hquits : quits line = true
    · simp [untilQuit, hquits]
    · simp [untilQuit, hquits, ih]

theorem exchange_after {k : Nat} {e : Exchange}
    (h : ((after earlier).exchanges ls)[k]? = some e) :
    Counts e.shown ((earlier ++ ls.take k).countP specifies) ∧
      ∀ o, Answers (after (earlier ++ ls.take k)).json e.line o ↔ o = e.reply := by
  induction ls generalizing earlier k with
  | nil => cases h
  | cons line ls ih =>
    rw [exchanges_after_cons] at h
    cases k with
    | zero =>
      cases h
      rw [List.take_zero, List.append_nil]
      exact ⟨counts_text _ _, fun o => answers_iff _⟩
    | succ k =>
      rw [List.getElem?_cons_succ] at h
      split at h
      · cases h
      · obtain ⟨hshown, hreply⟩ := ih _ h
        rw [List.append_assoc, List.singleton_append] at hshown hreply
        exact ⟨hshown, hreply⟩

theorem converse_after_cons :
    (after earlier).converse (line :: ls)
      = .out (after earlier).text ++ ((after earlier).respond (Request.ofLine line)).1 ++
        if quits line = true then .empty else (after (earlier ++ [line])).converse ls := by
  rw [converse, respond_after_eq]
  by_cases hquits : quits line = true <;> simp [hquits]

theorem converse_after :
    (after earlier).converse ls
      = written ((after earlier).exchanges ls) ++
        if ls.any quits then .empty else .out ((after (earlier ++ ls)).text ++ "\n") := by
  induction ls generalizing earlier with
  | nil => simp [converse, exchanges, written]
  | cons line ls ih =>
    rw [converse_after_cons, exchanges_after_cons, written, List.any_cons]
    by_cases hquits : quits line = true
    · simp [hquits, written]
    · simp [hquits, ih, Output.append_assoc]

/-! ## The lines of an input -/

/-- Some lines as they are typed in: each of them ends with a line feed, which may be missing behind
    the last one if that is not empty. -/
def TypedAs (ls : List (List Char)) (cs : List Char) : Prop :=
  (∀ line ∈ ls, '\n' ∉ line) ∧
    (ls.flatMap (· ++ ['\n']) = cs ∨
      ls.flatMap (· ++ ['\n']) = cs ++ ['\n'] ∧ ls.getLast? ≠ some [])

theorem typedAs_inputLines (input : String) : TypedAs (inputLines input) input.toList := by
  have hlines := flatMap_lines input.toList
  rw [inputLines]
  split
  · next hlast =>
    have hmem : ∀ line ∈ (lines input.toList).dropLast, '\n' ∉ line := fun line h =>
      newline_not_mem_of_mem_lines (List.dropLast_subset _ h)
    rw [← List.dropLast_append_getLast? _ hlast, List.flatMap_append] at hlines
    exact ⟨hmem, Or.inl (List.append_cancel_right hlines)⟩
  · next hlast =>
    exact ⟨fun line => newline_not_mem_of_mem_lines, Or.inr ⟨hlines, hlast⟩⟩

theorem typedAs_iff {ls : List (List Char)} {input : String} :
    TypedAs ls input.toList ↔ inputLines input = ls := by
  constructor
  · rintro ⟨hmem, htyped | ⟨htyped, hlast⟩⟩
    · have hlines := lines_flatMap_newline hmem
      rw [htyped] at hlines
      simp [inputLines, hlines]
    · have hlines := lines_flatMap_newline hmem
      rw [htyped, lines_append_newline] at hlines
      rw [inputLines, List.append_cancel_right hlines, if_neg hlast]
  · rintro rfl
    exact typedAs_inputLines input

end Prompt

end TypeNotation
