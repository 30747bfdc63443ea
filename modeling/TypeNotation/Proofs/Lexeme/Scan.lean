import TypeNotation.Lexeme

set_option autoImplicit false

/-! # The tokens of a text

`tokensIn` cuts a text into tokens without a thought of where they stand; a scanner gives out the
same tokens from any offset. A text is cut piece by piece: a blank is passed over, a word ends where
a character follows that is none of its own, and a sign of one character is a token whatever
follows, unless a longer sign begins with it. -/

namespace TypeNotation

/-- The tokens of a text, from left to right. -/
def tokensIn (cs : List Char) : List Token :=
  match h : Token.first? (cs.dropWhile isBlank) with
  | none => []
  | some (token, rest) =>
    have : rest.length < cs.length := Nat.lt_of_lt_of_le (Token.length_lt_of_first? h)
      (List.dropWhile_suffix isBlank).length_le
    token :: tokensIn rest
termination_by cs.length

theorem tokensIn_eq (cs : List Char) :
    tokensIn cs = match Token.first? (cs.dropWhile isBlank) with
      | none => []
      | some (token, rest) => token :: tokensIn rest := by
  rw [tokensIn]
  split
  · next h => rw [h]
  · next h => simp only [h]

theorem Scanner.tokens_toList (s : Scanner) :
    s.toList.map (·.token) = tokensIn s.rest := by
  fun_induction Scanner.toList s with
  | case1 s h =>
    cases hfirst : Token.first? (s.rest.dropWhile isBlank) with
    | none => rw [tokensIn_eq, hfirst, List.map_nil]
    | some first => simp [Scanner.next?, hfirst] at h
  | case2 s lexeme s' h _ ih =>
    cases hfirst : Token.first? (s.rest.dropWhile isBlank) with
    | none => simp [Scanner.next?, hfirst] at h
    | some first =>
      simp only [Scanner.next?, hfirst, Option.some.injEq, Prod.mk.injEq] at h
      obtain ⟨rfl, rfl⟩ := h
      rw [List.map_cons, ih, tokensIn_eq s.rest, hfirst]

/-- The lexemes of a text are its tokens with their places. -/
theorem tokens_lexemes (text : String) :
    (lexemes text).map (·.token) = tokensIn text.toList :=
  Scanner.tokens_toList _

/-- The lexemes that are found in a number of steps. -/
def Scanner.upTo (s : Scanner) : Nat → List Lexeme
  | 0 => []
  | n + 1 =>
    match s.next? with
    | none => []
    | some (lexeme, s') => lexeme :: s'.upTo n

/-- There are not more lexemes than characters. -/
theorem Scanner.toList_eq_upTo {s : Scanner} {n : Nat} (h : s.rest.length < n) :
    s.toList = s.upTo n := by
  induction n generalizing s with
  | zero => exact absurd h (Nat.not_lt_zero _)
  | succ n ih =>
    rw [Scanner.toList, Scanner.upTo]
    split
    · next hnext => rw [hnext]
    · next lexeme s' hnext =>
      have hlt := length_rest_lt_of_next? hnext
      have hrest : s'.toList = s'.upTo n := ih (by omega)
      simp only [hnext, hrest]

/-! ## Cutting a text piece by piece -/

@[simp]
theorem tokensIn_nil : tokensIn [] = [] := by
  rw [tokensIn_eq]
  rfl

theorem tokensIn_cons_of_isBlank {c : Char} (hc : isBlank c = true) (cs : List Char) :
    tokensIn (c :: cs) = tokensIn cs := by
  rw [tokensIn_eq, tokensIn_eq cs, List.dropWhile_cons_of_pos hc]

theorem tokensIn_of_first? {c : Char} (hc : isBlank c = false) {cs rest : List Char} {token : Token}
    (h : Token.first? (c :: cs) = some (token, rest)) :
    tokensIn (c :: cs) = token :: tokensIn rest := by
  rw [tokensIn_eq, List.dropWhile_cons_of_neg (by simp [hc]), h]

/-! ## Words -/

/-- A word is made of word characters only, of one at least. -/
def IsWord (text : String) : Prop :=
  text ≠ "" ∧ text.toList.all Token.isWordChar = true

/-- `IsWord` is decided by looking at each character. -/
instance (text : String) : Decidable (IsWord text) :=
  inferInstanceAs (Decidable (_ ∧ _))

/-- A text whose first character is not part of a word. -/
def EndsWord (cs : List Char) : Prop :=
  ∀ c ∈ cs.head?, Token.isWordChar c = false

theorem endsWord_nil : EndsWord [] := by
  simp [EndsWord]

theorem toNat_of_isBlank {c : Char} (h : isBlank c = true) : c.toNat ≤ 32 ∨ 160 ≤ c.toNat := by
  simp only [isBlank, isSpace, Bool.or_eq_true, Bool.and_eq_true, decide_eq_true_eq, beq_iff_eq,
    bne_iff_ne, Char.le_def, UInt32.le_iff_toNat_le, or_assoc] at h
  rcases h with rfl | ⟨h | rfl | rfl | rfl | rfl | h | rfl | rfl | rfl | rfl | rfl, hne⟩
  · decide
  · change 9 ≤ c.toNat ∧ c.toNat ≤ 13 at h
    omega
  · decide
  · exact absurd rfl hne
  · decide
  · decide
  · change 8192 ≤ c.toNat ∧ c.toNat ≤ 8202 at h
    omega
  all_goals decide

theorem toNat_of_isWordChar {c : Char} (h : Token.isWordChar c = true) :
    36 ≤ c.toNat ∧ c.toNat ≤ 122 := by
  simp only [Token.isWordChar, Bool.or_eq_true, beq_iff_eq] at h
  rcases h with (h | rfl) | rfl
  · change ((decide (65 ≤ c.toNat ∧ c.toNat ≤ 90) ||
      (decide (97 ≤ c.toNat) && decide (c.toNat ≤ 122))) ||
      (decide (48 ≤ c.toNat) && decide (c.toNat ≤ 57))) = true at h
    simp only [Bool.or_eq_true, Bool.and_eq_true, decide_eq_true_eq] at h
    omega
  · decide
  · decide

theorem isBlank_eq_false_of_isWordChar {c : Char} (h : Token.isWordChar c = true) :
    isBlank c = false := by
  rw [← Bool.not_eq_true]
  intro hblank
  have hword := toNat_of_isWordChar h
  have hrange := toNat_of_isBlank hblank
  omega

/-- A word character begins a word, as no longer sign begins with one. -/
theorem Token.first?_of_isWordChar {c : Char} (h : isWordChar c = true) (cs : List Char) :
    first? (c :: cs) = some (.identifier (String.ofList (c :: cs.takeWhile isWordChar)),
      cs.dropWhile isWordChar) := by
  unfold first?
  split
  · next heq => cases heq
  · next heq => cases heq; cases h
  · next heq => cases heq; cases h
  · next heq => cases heq; cases h
  · next heq =>
    cases heq
    rw [if_pos h]

theorem IsWord.exists_cons {text : String} (h : IsWord text) :
    ∃ c cs, text.toList = c :: cs ∧ Token.isWordChar c = true ∧
      ∀ d ∈ cs, Token.isWordChar d = true := by
  obtain ⟨hne, hword⟩ := h
  cases htext : text.toList with
  | nil => exact absurd (String.toList_eq_nil_iff.1 htext) hne
  | cons c cs =>
    rw [htext, List.all_eq_true, List.forall_mem_cons] at hword
    exact ⟨c, cs, rfl, hword⟩

/-- A word is read where it stands if what follows does not carry it on. -/
theorem Token.first?_of_isWord {text : String} (h : IsWord text) {rest : List Char}
    (hrest : EndsWord rest) : first? (text.toList ++ rest) = some (.identifier text, rest) := by
  obtain ⟨c, cs, htext, hc, hcs⟩ := h.exists_cons
  have hstop : rest.takeWhile isWordChar = [] ∧ rest.dropWhile isWordChar = rest := by
    cases rest with
    | nil => exact ⟨rfl, rfl⟩
    | cons c rest => simp [hrest c rfl]
  rw [htext, List.cons_append, first?_of_isWordChar hc, List.takeWhile_append_of_pos hcs,
    List.dropWhile_append_of_pos hcs, hstop.1, hstop.2, List.append_nil, ← htext,
    String.ofList_toList]

theorem tokensIn_word {text : String} (h : IsWord text) {rest : List Char} (hrest : EndsWord rest) :
    tokensIn (text.toList ++ rest) = .identifier text :: tokensIn rest := by
  have hfirst := Token.first?_of_isWord h hrest
  obtain ⟨c, cs, htext, hc, -⟩ := h.exists_cons
  rw [htext] at hfirst ⊢
  exact tokensIn_of_first? (isBlank_eq_false_of_isWordChar hc) hfirst

theorem Token.isWord_of_first? {cs rest : List Char} {text : String}
    (h : first? cs = some (.identifier text, rest)) : IsWord text := by
  unfold first? at h
  split at h
  · cases h
  · cases h
  · cases h
  · cases h
  · split at h
    · next c cs _ _ _ hc =>
      cases h
      refine ⟨by simp, ?_⟩
      rw [String.toList_ofList, List.all_cons, hc, List.all_takeWhile, Bool.true_and]
    · simp only [Option.some.injEq, Prod.mk.injEq] at h
      obtain ⟨h, -⟩ := h
      unfold ofChar at h
      split at h <;> cases h

/-- What a text is cut into are words and signs: no identifier has another character in it. -/
theorem isWord_of_mem_tokensIn {cs : List Char} {text : String}
    (h : .identifier text ∈ tokensIn cs) : IsWord text := by
  fun_induction tokensIn cs with
  | case1 => cases h
  | case2 cs token rest hfirst _ ih =>
    rcases List.mem_cons.1 h with rfl | h
    · exact Token.isWord_of_first? hfirst
    · exact ih h

/-! ## Texts that are cut apart from what follows -/

/-- A text is cut into the given tokens whatever follows, unless that carries on a word. -/
def Cuts (cs : List Char) (ts : List Token) : Prop :=
  ∀ rest, EndsWord rest → tokensIn (cs ++ rest) = ts ++ tokensIn rest

theorem EndsWord.append {cs rest : List Char} (h : EndsWord cs) (hrest : EndsWord rest) :
    EndsWord (cs ++ rest) := by
  cases cs with
  | nil => exact hrest
  | cons c cs => exact h

namespace Cuts

variable {cs cs' : List Char} {ts ts' : List Token}

theorem tokensIn_eq (h : Cuts cs ts) : tokensIn cs = ts := by
  simpa using h [] endsWord_nil

theorem append (h : Cuts cs ts) (h' : Cuts cs' ts') (hends : EndsWord cs') :
    Cuts (cs ++ cs') (ts ++ ts') := by
  intro rest hrest
  rw [List.append_assoc, h _ (hends.append hrest), h' rest hrest, List.append_assoc]

theorem blank {c : Char} (hc : isBlank c = true) (h : Cuts cs ts) : Cuts (c :: cs) ts := by
  intro rest hrest
  rw [List.cons_append, tokensIn_cons_of_isBlank hc, h rest hrest]

/-- A sign that begins no longer one stands for itself. -/
theorem sign {c : Char} {t : Token} (hc : isBlank c = false)
    (hfirst : ∀ rest, Token.first? (c :: rest) = some (t, rest)) (h : Cuts cs ts) :
    Cuts (c :: cs) (t :: ts) := by
  intro rest hrest
  rw [List.cons_append, tokensIn_of_first? hc (hfirst _), h rest hrest, List.cons_append]

/-- A colon and a blank, which keeps the colon from being half of a longer sign. -/
theorem colon (h : Cuts cs ts) : Cuts (':' :: ' ' :: cs) (.colon :: ts) := by
  intro rest hrest
  have hfirst : Token.first? (':' :: ' ' :: (cs ++ rest)) = some (.colon, ' ' :: (cs ++ rest)) :=
    rfl
  rw [List.cons_append, List.cons_append, tokensIn_of_first? rfl hfirst,
    tokensIn_cons_of_isBlank rfl, h rest hrest, List.cons_append]

end Cuts

theorem cuts_nil : Cuts [] [] :=
  fun _ _ => rfl

theorem cuts_word {text : String} (h : IsWord text) : Cuts text.toList [.identifier text] :=
  fun _ hrest => tokensIn_word h hrest

theorem cuts_ellipsis : Cuts ['.', '.', '.'] [.ellipsis] :=
  fun _ _ => tokensIn_of_first? rfl rfl

end TypeNotation
