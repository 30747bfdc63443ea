import TypeNotation.Proofs.Lexeme.Parted
import TypeNotation.Proofs.Session.Trailing

set_option autoImplicit false

/-! # What trimming does to a line

A check drops the spaces at the ends of a line before it reads it, and passes over a line of which
nothing is left. If spaces were blanks, no token would be lost by that, and the lines passed over
would be those without tokens. But there are two characters that are one and not the other: of all
lines, just those that have one of them at an end are treated otherwise. -/

namespace TypeNotation

/-! ## Spaces and blanks -/

theorem isBlank_of_isSpace {c : Char} (h : isSpace c = true) (hne : c ≠ '\u0085') :
    isBlank c = true := by
  simp [isBlank, h, hne]

theorem isSpace_of_isBlank {c : Char} (h : isBlank c = true) (hne : c ≠ '\uFEFF') :
    isSpace c = true := by
  simp only [isBlank, Bool.or_eq_true, Bool.and_eq_true, beq_iff_eq] at h
  exact (h.resolve_left hne).1

/-- Nothing but spaces. -/
def AllSpace (cs : List Char) : Prop :=
  ∀ c ∈ cs, isSpace c = true

variable {cs line : List Char}

theorem AllSpace.allBlank_iff (h : AllSpace cs) : AllBlank cs ↔ '\u0085' ∉ cs := by
  constructor
  · intro hblank hmem
    exact absurd (hblank _ hmem) (by decide)
  · intro hmem c hc
    exact isBlank_of_isSpace (h c hc) fun he => hmem (he ▸ hc)

theorem AllBlank.allSpace_iff (h : AllBlank cs) : AllSpace cs ↔ '\uFEFF' ∉ cs := by
  constructor
  · intro hspace hmem
    exact absurd (hspace _ hmem) (by decide)
  · intro hmem c hc
    exact isSpace_of_isBlank (h c hc) fun he => hmem (he ▸ hc)

/-- Only two characters make a difference between lines of spaces and lines of blanks. -/
theorem allSpace_iff_allBlank_iff :
    (AllSpace cs ↔ AllBlank cs) ↔
      ¬ (AllSpace cs ∧ '\u0085' ∈ cs) ∧ ¬ (AllBlank cs ∧ '\uFEFF' ∈ cs) := by
  constructor
  · intro h
    refine ⟨?_, ?_⟩
    · rintro ⟨hspace, hmem⟩
      exact hspace.allBlank_iff.1 (h.1 hspace) hmem
    · rintro ⟨hblank, hmem⟩
      exact hblank.allSpace_iff.1 (h.2 hblank) hmem
  · rintro ⟨hcontrol, hmark⟩
    constructor
    · intro hspace
      exact hspace.allBlank_iff.2 fun hmem => hcontrol ⟨hspace, hmem⟩
    · intro hblank
      exact hblank.allSpace_iff.2 fun hmem => hmark ⟨hblank, hmem⟩

theorem lexemes_eq_nil_iff : lexemes (String.ofList cs) = [] ↔ AllBlank cs := by
  rw [← List.map_eq_nil_iff (f := Lexeme.token), tokens_lexemes, String.toList_ofList]
  constructor
  · intro h c hc
    have htext := flatMap_text_tokensIn cs
    rw [h, List.flatMap_nil, eq_comm, List.filter_eq_nil_iff] at htext
    simpa using htext c hc
  · intro h
    have hall := tokensIn_append_blanks h []
    rwa [List.nil_append, tokensIn_nil] at hall

/-- The tokens of a line are those of a part of it just if what stands around that are blanks. -/
theorem tokensIn_around_iff {front back : List Char} :
    tokensIn (front ++ (cs ++ back)) = tokensIn cs ↔ AllBlank (front ++ back) := by
  constructor
  · intro h
    -- equal tokens have equal texts, so no character but blanks can have been left out
    have htext := flatMap_text_tokensIn (front ++ (cs ++ back))
    rw [h, flatMap_text_tokensIn, List.filter_append, List.filter_append] at htext
    have hlength := congrArg List.length htext
    simp only [List.length_append] at hlength
    have hfront : front.filter (!isBlank ·) = [] := List.eq_nil_of_length_eq_zero (by omega)
    have hback : back.filter (!isBlank ·) = [] := List.eq_nil_of_length_eq_zero (by omega)
    refine List.forall_mem_append.2 ⟨?_, ?_⟩
    · simpa using List.filter_eq_nil_iff.1 hfront
    · simpa using List.filter_eq_nil_iff.1 hback
  · intro h
    obtain ⟨hfront, hback⟩ := List.forall_mem_append.1 h
    rw [tokensIn_append_of_allBlank hfront, tokensIn_append_blanks hback]

/-! ## Lines that are passed over -/

theorem trims_nil_iff : Trims line [] ↔ AllSpace line := by
  constructor
  · rintro ⟨front, back, rfl, hfront, hback, -⟩
    exact List.forall_mem_append.2 ⟨hfront, hback⟩
  · intro h
    exact ⟨line, [], by simp, h, nofun, nofun, nofun⟩

theorem IsLine.unique {number : Nat} {line' : List Char} (h : IsLine cs number line)
    (h' : IsLine cs number line') : line = line' := by
  obtain ⟨before, after, -, -, -, -, hnumber⟩ := id h
  rw [hnumber] at h h'
  exact Option.some.inj ((getElem?_lines_of_isLine h).symm.trans (getElem?_lines_of_isLine h'))

namespace Session

variable {s : Session} {number : Nat}

/-- A line holds no specification, and no comment either. -/
def PassesOver (s : Session) (number : Nat) (line : List Char) : Prop :=
  (∀ x ∈ s.specs, x.number ≠ number) ∧ ¬ ∃ rest, Trims line ('#' :: rest)

theorem passesOver_iff (hline : IsLine s.source.toList number line) :
    s.PassesOver number line ↔ AllSpace line := by
  rw [← trims_nil_iff]
  constructor
  · rintro ⟨hspecs, hcomment⟩
    have htrims := trims_trim line
    cases hpart : trim line with
    | nil => rwa [hpart] at htrims
    | cons c rest =>
      rw [hpart] at htrims
      have hspec : (⟨number, String.ofList (c :: rest)⟩ : SpecLine) ∈ s.specs := by
        refine SpecLine.mem_ofText_iff.2 ⟨line, hline, by simpa using htrims, by simp, ?_⟩
        intro hc
        obtain rfl : c = '#' := by simpa using hc
        exact hcomment ⟨rest, htrims⟩
      exact absurd rfl (hspecs _ hspec)
  · intro htrims
    refine ⟨?_, ?_⟩
    · rintro x hx rfl
      obtain ⟨line', hline', htrims', hne, -⟩ := SpecLine.mem_ofText_iff.1 hx
      obtain rfl := hline.unique hline'
      have hnil : x.text.toList = [] := (trim_eq_iff.2 htrims').symm.trans (trim_eq_iff.2 htrims)
      exact hne (String.toList_eq_nil_iff.1 hnil)
    · rintro ⟨rest, htrims'⟩
      cases (trim_eq_iff.2 htrims').symm.trans (trim_eq_iff.2 htrims)

/-! ## Lines that are read -/

/-- What a check records for the specification with an index is what a text is read as: with the
    same type expression, or with an error for the same cause at the same position. -/
def Records (s : Session) (i : Nat) (x : SpecLine) (text : String) : Prop :=
  ∃ result, TypeExpr.Agree x.text text result (TypeExpr.parse text) ∧
    (∀ of, ⟨x, of⟩ ∈ s.run.1 ↔ ∃ rest, result = .ok (of, rest)) ∧
    ∀ refusal, ⟨.refused refusal, i⟩ ∈ s.run.2.report.errors ↔ result = .error refusal

theorem records_of_agree {i : Nat} {x : SpecLine} {text : String} (hx : s.specs[i]? = some x)
    (h : TypeExpr.Agree x.text text (TypeExpr.parse x.text) (TypeExpr.parse text)) :
    s.Records i x text := by
  refine ⟨_, h, fun of => ?_, fun refusal => ?_⟩
  · rw [s.accounts_run.mem_checked_iff]
    exact and_iff_right (List.mem_of_getElem? hx)
  · rw [s.accounts_run.mem_errors_iff]
    constructor
    · rintro ⟨x', refusal', hx', hparse, hissue⟩
      cases hx.symm.trans hx'
      cases hissue
      exact hparse
    · intro hparse
      exact ⟨x, refusal, hx, hparse, rfl⟩

/-- A line (`IsLine`) is passed over (`PassesOver`) just if it has no `lexemes`, except where it is
    `AllSpace` with U+0085 in it or `AllBlank` with U+FEFF in it. The specification of a line is the
    line less some spaces at its ends; it has the tokens of the whole line if and only if U+0085 is
    not among those spaces, and then the session `Records` for it what the whole line is read as. -/
theorem passesOver_iff_and_records_of_isLine (hline : IsLine s.source.toList number line) :
    ((s.PassesOver number line ↔ lexemes (String.ofList line) = []) ↔
        ¬ (AllSpace line ∧ '\u0085' ∈ line) ∧ ¬ (AllBlank line ∧ '\uFEFF' ∈ line)) ∧
      ∀ i x, s.specs[i]? = some x → x.number = number →
        ∃ front back, line = front ++ (x.text.toList ++ back) ∧ AllSpace (front ++ back) ∧
          (Parser.tokensOf (lexemes (String.ofList line)) = Parser.tokensOf (lexemes x.text) ↔
            '\u0085' ∉ front ++ back) ∧
          ('\u0085' ∉ front ++ back → s.Records i x (String.ofList line)) := by
  refine ⟨?_, ?_⟩
  · rw [passesOver_iff hline, lexemes_eq_nil_iff, allSpace_iff_allBlank_iff]
  · rintro i x hx rfl
    obtain ⟨line', hline', htrims, hne, -⟩ :=
      SpecLine.mem_ofText_iff.1 (List.mem_of_getElem? hx)
    obtain rfl := hline.unique hline'
    obtain ⟨front, back, hparts, hfront, hback, -⟩ := htrims
    have hspace : AllSpace (front ++ back) := List.forall_mem_append.2 ⟨hfront, hback⟩
    have htokens : Parser.tokensOf (lexemes (String.ofList line))
        = Parser.tokensOf (lexemes x.text) ↔ '\u0085' ∉ front ++ back := by
      rw [Parser.tokensOf, Parser.tokensOf, tokens_lexemes, tokens_lexemes, String.toList_ofList,
        hparts, tokensIn_around_iff, hspace.allBlank_iff]
    refine ⟨front, back, hparts, hspace, htokens, fun hcontrol => ?_⟩
    have hline_ne : String.ofList line ≠ "" := by
      simp [hparts, hne]
    exact records_of_agree hx
      (TypeExpr.agree_of_tokensOf_eq hne hline_ne (htokens.2 hcontrol).symm)

/-- A line of a byte order mark, one that begins with a next-line control, and one that begins with
    an ordinary space. -/
def indented : Session :=
  .ofSource "types.txt" "\uFEFF\n\u0085B\n B"

theorem specs_indented : indented.specs = [⟨1, "\uFEFF"⟩, ⟨2, "B"⟩, ⟨3, "B"⟩] := by
  decide

/-- The instance at the third line of `indented`, which begins with an ordinary space. -/
theorem passesOver_iff_and_records_indented :
    IsLine indented.source.toList 3 " B".toList ∧
      (indented.PassesOver 3 " B".toList ↔ lexemes " B" = []) ∧
      indented.Records 2 ⟨3, "B"⟩ " B" := by
  have hline : IsLine indented.source.toList 3 " B".toList :=
    isLine_of_getElem?_lines (by decide)
  have hthird : indented.specs[2]? = some ⟨3, "B"⟩ := by rw [specs_indented]; rfl
  obtain ⟨hpasses, hreads⟩ := passesOver_iff_and_records_of_isLine hline
  obtain ⟨front, back, hparts, -, -, hrecords⟩ := hreads 2 _ hthird rfl
  rw [String.ofList_toList] at hpasses hrecords
  refine ⟨hline, hpasses.2 ⟨?_, ?_⟩, hrecords fun hmem => ?_⟩
  · exact fun h => absurd h.2 (by decide)
  · exact fun h => absurd h.2 (by decide)
  · have hmem_line : '\u0085' ∈ " B".toList := by
      rw [hparts]
      rcases List.mem_append.1 hmem with h | h
      · exact List.mem_append_left _ h
      · exact List.mem_append_right _ (List.mem_append_right _ h)
    exact absurd hmem_line (by decide)

theorem parse_control :
    TypeExpr.parse "\u0085B"
      = .error (.stopped (.at ⟨0, 2⟩ (.unexpected .type "\u0085")) ["\u0085", "B"] "\u0085B") := by
  have hlexemes : lexemes "\u0085B" = [⟨.other "\u0085", 0, 2⟩, ⟨.identifier "B", 2, 3⟩] := by
    rw [lexemes, Scanner.toList_eq_upTo (n := 3) (by decide)]
    rfl
  have hread : Grammar.read nestingLimit [.other "\u0085", .identifier "B"]
      = .error ⟨.unexpected .type "\u0085", [.other "\u0085", .identifier "B"]⟩ :=
    Grammar.union_eq_error_iff.2 ⟨none, _, false, _, rfl, rfl,
      .first (Grammar.variant_eq_error_iff.2 (.inShape rfl (Grammar.shape_eq_error_iff.2
        (.noShape rfl))))⟩
  have hparse : (Parser.ofLexemes (lexemes "\u0085B")).parse
      = (.error (.at ⟨0, 2⟩ (.unexpected .type "\u0085")),
          ⟨[⟨.other "\u0085", 0, 2⟩, ⟨.identifier "B", 2, 3⟩], 3⟩) := by
    rw [hlexemes]
    exact Parser.parse_eq_error_iff.2 ⟨[], .unexpected .type "\u0085", rfl, hread, rfl⟩
  have harrow : .arrow ∉ Parser.tokensOf (lexemes "\u0085B") := by
    rw [hlexemes]
    decide
  exact TypeExpr.parse_eq_error_iff.2 (.stopped (by decide) harrow hparse)

/-- The first two lines of `indented` are the exceptions. U+FEFF alone is a specification without
    lexemes, and `B` behind U+0085 is a result although `TypeExpr.parse` refuses the whole line. -/
theorem mem_specs_and_mem_run_indented :
    (IsLine indented.source.toList 1 "\uFEFF".toList ∧ lexemes "\uFEFF" = [] ∧
        ⟨1, "\uFEFF"⟩ ∈ indented.specs) ∧
      IsLine indented.source.toList 2 "\u0085B".toList ∧
        ⟨⟨2, "B"⟩, [.named "B"]⟩ ∈ indented.run.1 ∧
        ∃ refusal, TypeExpr.parse "\u0085B" = .error refusal := by
  have hmark : lexemes (String.ofList ['\uFEFF']) = [] :=
    lexemes_eq_nil_iff.2 (by simp [AllBlank, isBlank])
  refine ⟨⟨isLine_of_getElem?_lines (by decide), hmark, ?_⟩, isLine_of_getElem?_lines (by decide),
    mem_checked_iff.2 ⟨?_, [], parse_followed_first⟩, _, parse_control⟩
  · rw [specs_indented]
    decide
  · rw [specs_indented]
    decide

end Session

end TypeNotation
