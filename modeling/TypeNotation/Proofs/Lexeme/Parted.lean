import Mathlib.Data.List.Basic
import TypeNotation.Proofs.Lexeme.Munch

set_option autoImplicit false

/-! # Blanks part a text

No token has a blank in it, and none becomes longer or shorter because a blank follows. So the text
in front of some blanks and the text behind them are cut each on its own, and all that the text
behind them sees of what stands in front is the offset at which it begins. -/

namespace TypeNotation

/-! ## Moving lexemes on -/

/-- The place that lies a number of bytes further on. -/
def Span.moveOn (n : Nat) (span : Span) : Span :=
  ⟨span.start + n, span.stop + n⟩

/-- The same token a number of bytes further on. -/
def Lexeme.moveOn (n : Nat) (l : Lexeme) : Lexeme :=
  { l with span := l.span.moveOn n }

namespace Scanner

variable {s s' : Scanner} {l : Lexeme}

/-- The same text, but it begins a number of bytes further on. -/
def moveOn (n : Nat) (s : Scanner) : Scanner :=
  { s with offset := s.offset + n }

theorem next?_moveOn (h : s.next? = some (l, s')) (n : Nat) :
    (s.moveOn n).next? = some (l.moveOn n, s'.moveOn n) := by
  obtain ⟨blanks, hblank, hrest, hfirst, hproper, hstart, hstop, hoffset⟩ := next?_eq_some_iff.1 h
  refine next?_eq_some_iff.2 ⟨blanks, hblank, hrest, hfirst, hproper, ?_, ?_, ?_⟩
  · simp only [Lexeme.moveOn, Span.moveOn, moveOn]
    omega
  · simp only [Lexeme.moveOn, Span.moveOn]
    omega
  · simp only [Lexeme.moveOn, Span.moveOn, moveOn]
    omega

theorem toList_moveOn (s : Scanner) (n : Nat) :
    (s.moveOn n).toList = s.toList.map (Lexeme.moveOn n) := by
  fun_induction toList s with
  | case1 s h =>
    have hblank : AllBlank s.rest := next?_eq_none_iff.1 h
    have hnone : (s.moveOn n).next? = none := next?_eq_none_iff.2 hblank
    rw [toList_of_next?_eq_none hnone, List.map_nil]
  | case2 s l s' h _ ih =>
    rw [toList_of_next?_eq_some (next?_moveOn h n), ih, List.map_cons]

/-! ## Coming to blanks -/

/-- A scanner in front of a text that goes on. -/
def goOn (cs : List Char) (s : Scanner) : Scanner :=
  { s with rest := s.rest ++ cs }

theorem next?_goOn {cs : List Char} (hcs : ∀ c ∈ cs.head?, isBlank c = true)
    (h : s.next? = some (l, s')) : (s.goOn cs).next? = some (l, s'.goOn cs) := by
  obtain ⟨blanks, hblank, hrest, hfirst, hproper, hplace⟩ := next?_eq_some_iff.1 h
  have hread := hproper.first?_append_of_isBlank hfirst hcs
  refine next?_eq_some_iff.2 ⟨blanks, hblank, ?_, hread, hproper, hplace⟩
  simp [goOn, hrest]

/-- Blanks in front of a text are passed over. -/
theorem toList_blanks {blanks : List Char} (h : AllBlank blanks) (offset : Nat) (cs : List Char) :
    (⟨offset, blanks ++ cs⟩ : Scanner).toList
      = (⟨offset + byteLength blanks, cs⟩ : Scanner).toList := by
  cases hnext : (⟨offset + byteLength blanks, cs⟩ : Scanner).next? with
  | none =>
    have hcs : AllBlank cs := next?_eq_none_iff.1 hnext
    have hall : AllBlank (blanks ++ cs) := List.forall_mem_append.2 ⟨h, hcs⟩
    rw [toList_of_next?_eq_none hnext, toList_of_next?_eq_none (next?_eq_none_iff.2 hall)]
  | some next =>
    obtain ⟨l, s'⟩ := next
    obtain ⟨more, hmore, hrest, hfirst, hproper, hstart, hstop⟩ := next?_eq_some_iff.1 hnext
    have hall : AllBlank (blanks ++ more) := List.forall_mem_append.2 ⟨h, hmore⟩
    have hnext' : (⟨offset, blanks ++ cs⟩ : Scanner).next? = some (l, s') := by
      refine next?_eq_some_iff.2 ⟨blanks ++ more, hall, ?_, hfirst, hproper, ?_, hstop⟩
      · simp only at hrest
        rw [hrest, List.append_assoc]
      · rw [hstart, byteLength_append]
        simp only
        omega
    rw [toList_of_next?_eq_some hnext, toList_of_next?_eq_some hnext']

/-- The lexemes in front of some blanks come first, and then those behind them. -/
theorem toList_goOn (s : Scanner) {blanks : List Char} (hne : blanks ≠ []) (h : AllBlank blanks)
    (cs : List Char) :
    (s.goOn (blanks ++ cs)).toList
      = s.toList ++ (⟨s.offset + byteLength (s.rest ++ blanks), cs⟩ : Scanner).toList := by
  have hhead : ∀ c ∈ (blanks ++ cs).head?, isBlank c = true := by
    intro c hc
    rw [List.head?_append_of_ne_nil _ hne] at hc
    exact h c (List.mem_of_mem_head? hc)
  fun_induction toList s with
  | case1 s hnext =>
    have hall : AllBlank (s.rest ++ blanks) :=
      List.forall_mem_append.2 ⟨next?_eq_none_iff.1 hnext, h⟩
    rw [goOn, ← List.append_assoc, toList_blanks hall, List.nil_append]
  | case2 s l s' hnext _ ih =>
    obtain ⟨between, -, hrest, -, -, hstart, hstop, hoffset⟩ := next?_eq_some_iff.1 hnext
    have hend : s'.offset + byteLength (s'.rest ++ blanks)
        = s.offset + byteLength (s.rest ++ blanks) := by
      rw [hrest]
      simp only [byteLength_append]
      omega
    rw [toList_of_next?_eq_some (next?_goOn hhead hnext), ih, hend, List.cons_append]

end Scanner

/-! ## The tokens alone -/

theorem tokensIn_append_blanks {blanks : List Char} (h : AllBlank blanks) (cs : List Char) :
    tokensIn (cs ++ blanks) = tokensIn cs := by
  by_cases hne : blanks = []
  · rw [hne, List.append_nil]
  · have hnil : ∀ n, (⟨n, []⟩ : Scanner).toList = [] := fun n =>
      Scanner.toList_of_next?_eq_none (Scanner.next?_eq_none_iff.2 (List.forall_mem_nil _))
    have hlist := (⟨0, cs⟩ : Scanner).toList_goOn hne h []
    rw [hnil, List.append_nil, List.append_nil] at hlist
    have htokens := congrArg (List.map Lexeme.token) hlist
    rwa [Scanner.tokens_toList, Scanner.tokens_toList] at htokens

/-- Cutting a text leaves out its blanks and nothing else. -/
theorem flatMap_text_tokensIn (cs : List Char) :
    (tokensIn cs).flatMap (·.text.toList) = cs.filter (!isBlank ·) := by
  fun_induction tokensIn cs with
  | case1 cs h =>
    have hblank : ∀ c ∈ cs, isBlank c = true :=
      List.dropWhile_eq_nil_iff.1 (Token.eq_nil_of_first? h)
    rw [List.flatMap_nil, List.filter_eq_nil_iff.2 (by simpa using hblank)]
  | case2 cs t rest h _ ih =>
    have hblanks : (cs.takeWhile isBlank).filter (!isBlank ·) = [] :=
      List.filter_eq_nil_iff.2 (by simpa using List.all_eq_true.1 List.all_takeWhile)
    have htext : t.text.toList.filter (!isBlank ·) = t.text.toList := by
      have hproper := Token.proper_of_first? h (isBlank_head?_dropWhile cs)
      exact List.filter_eq_self.2 (by simpa using hproper.isBlank_eq_false)
    have hcs : cs = cs.takeWhile isBlank ++ (t.text.toList ++ rest) := by
      rw [Token.text_append_of_first? h, List.takeWhile_append_dropWhile]
    rw [hcs, List.filter_append, List.filter_append, hblanks, htext, List.nil_append,
      List.flatMap_cons, ih]

/-- `lexemes` of a text with blanks in it, at least one, are those of the part `before` them,
    followed by those of the part `after` them with every span moved on (`Lexeme.moveOn`) by the
    bytes in front of that part. -/
theorem lexemes_append_blanks (before : String) {blanks : String} (hne : blanks ≠ "")
    (h : AllBlank blanks.toList) (after : String) :
    lexemes (before ++ blanks ++ after)
      = lexemes before
        ++ (lexemes after).map (Lexeme.moveOn (before ++ blanks).utf8ByteSize) := by
  have hnil : blanks.toList ≠ [] := fun hnil => hne (String.toList_eq_nil_iff.1 hnil)
  have hwhole : Scanner.ofString (before ++ blanks ++ after)
      = (Scanner.ofString before).goOn (blanks.toList ++ after.toList) := by
    simp [Scanner.ofString, Scanner.goOn]
  have hback : (⟨(before ++ blanks).utf8ByteSize, after.toList⟩ : Scanner)
      = (Scanner.ofString after).moveOn (before ++ blanks).utf8ByteSize := by
    simp [Scanner.ofString, Scanner.moveOn]
  rw [lexemes, hwhole, Scanner.toList_goOn _ hnil h, lexemes, lexemes, ← Scanner.toList_moveOn,
    ← hback, Scanner.ofString, Nat.zero_add, ← String.toList_append, byteLength_toList]

/-- The instance at U+FEFF between two colons, which would be one token without it. -/
theorem lexemes_append_blanks_colons :
    "\uFEFF" ≠ "" ∧ AllBlank "\uFEFF".toList ∧
      lexemes ("é:" ++ "\uFEFF" ++ ":B") = [⟨.other "é", 0, 2⟩, ⟨.colon, 2, 3⟩, ⟨.colon, 6, 7⟩,
        ⟨.identifier "B", 7, 8⟩] := by
  have hne : "\uFEFF" ≠ "" := by decide
  have hblank : AllBlank "\uFEFF".toList := by simp [AllBlank, isBlank]
  have hbefore : lexemes "é:" = [⟨.other "é", 0, 2⟩, ⟨.colon, 2, 3⟩] := by
    rw [lexemes, Scanner.toList_eq_upTo (n := 3) (by decide)]
    rfl
  have hafter : lexemes ":B" = [⟨.colon, 0, 1⟩, ⟨.identifier "B", 1, 2⟩] := by
    rw [lexemes, Scanner.toList_eq_upTo (n := 3) (by decide)]
    rfl
  refine ⟨hne, hblank, ?_⟩
  rw [lexemes_append_blanks "é:" hne hblank ":B", hbefore, hafter]
  rfl

end TypeNotation
