import MiniPascal.Proofs.Token.Composition

/-!
# Texts of words

A word that is one token when it stands alone (`Spells`) is that token in a text of words with single spaces between
them, and such a text has no other tokens.

* `spells_number`: a number is spelled by its decimal digits.
* `tokensOf_words`: the tokens of a text of words.
-/

namespace MiniPascal

open Lexer

/-- The tokens of a text without their places, or its fault. -/
def tokensOf (source : String) : Except LexicalError (List Token) := (tokenize source).map (List.map Lexeme.token)

/-- The word alone is one token, the given one. -/
def Spells (word : String) (token : Token) : Prop := tokensOf word = .ok [token, .endOfInput]

instance (word : String) (token : Token) : Decidable (Spells word token) :=
  inferInstanceAs (Decidable (tokensOf word = .ok [token, .endOfInput]))

theorem tokensOf_eq_ok {source : String} {tokens : List Token} :
    tokensOf source = .ok tokens ↔ ∃ ts, tokenize source = .ok ts ∧ ts.map Lexeme.token = tokens := by
  unfold tokensOf
  cases tokenize source with
  | error e => simp [Except.map]
  | ok ts => simp [Except.map]

/-! ## Numbers -/

/-- Digits at the end of a text are read as the number they stand for. -/
theorem readNumber_of_digits {digits : List Char} (h : ∀ c ∈ digits, c.isDigit = true) :
    readNumber digits = readInteger digits [] := by
  have htake : digits.takeWhile Char.isDigit = digits := List.takeWhile_eq_self_iff.mpr h
  have hdrop : digits.dropWhile Char.isDigit = [] := List.dropWhile_eq_nil_iff.mpr h
  rw [readNumber_of_whole, htake, hdrop]
  intro d rest hpoint
  rw [hdrop] at hpoint
  cases hpoint

theorem reading_of_isDigit {c : Char} (h : c.isDigit = true) (cs : List Char) :
    reading c cs = readNumber (c :: cs) := by
  unfold reading
  rw [if_pos h]

/-- Digits are not skipped. -/
theorem settled_of_isDigit {c : Char} (h : c.isDigit = true) (cs : List Char) : Settled (c :: cs) := by
  have hneither : ¬ (isBlank c = true ∨ opensComment c = true) := by
    intro hc
    rw [(of_blank_or_comment hc).2.1] at h
    cases h
  refine settled_cons (Bool.eq_false_iff.mpr fun hblank => hneither (.inl hblank)) fun hopen => ?_
  exact absurd (.inr (opensComment_iff.mpr hopen)) hneither

theorem tokens_of_exhausted {lexer : Lexer} (h : lexer.rest = []) :
    lexer.tokens = .ok [lexer.endOfInput] := by
  apply tokens_of_endOfInput
  · rw [nextToken_of_exhausted h]
  · rfl

/-- A number that goes on to the end of the text is one token, and the end of input follows. -/
theorem tokens_of_number {lexer : Lexer} {c : Char} {cs : List Char} {token : Token} (hrest : lexer.rest = c :: cs)
    (hc : c.isDigit = true) (hreading : reading c cs = ⟨c :: cs, .ok token, []⟩) (htoken : token ≠ .endOfInput) :
    ∃ t stop, lexer.tokens = .ok [t, stop] ∧ t.token = token ∧ stop.token = .endOfInput := by
  have hsettled : (trivia lexer.rest).2 = c :: cs := by rw [hrest, trivia_of_settled (settled_of_isDigit hc cs)]
  have hnext := nextToken_of_cons hsettled
  rw [hreading] at hnext
  have hexhausted : lexer.nextToken.2.rest = [] := by rw [hnext]
  have htokens := tokens_of_token (congrArg Prod.fst hnext) htoken
  rw [tokens_of_exhausted hexhausted] at htokens
  exact ⟨_, _, htokens, rfl, rfl⟩

theorem spells_digits {c : Char} {cs : List Char} (h : ∀ d ∈ c :: cs, d.isDigit = true) {n : Integer}
    (hn : Integer.ofInt? (Nat.ofDigitChars 10 (c :: cs) 0) = some n) :
    Spells (String.ofList (c :: cs)) (.integer n) := by
  have hdigit : c.isDigit = true := h c List.mem_cons_self
  have hreading : reading c cs = ⟨c :: cs, .ok (.integer n), []⟩ := by
    rw [reading_of_isDigit hdigit, readNumber_of_digits h, readInteger, hn]
  have hrest : (ofString (String.ofList (c :: cs))).rest = c :: cs := by simp [ofString]
  obtain ⟨t, stop, htokens, ht, hstop⟩ := tokens_of_number hrest hdigit hreading (fun h => by cases h)
  refine tokensOf_eq_ok.mpr ⟨[t, stop], htokens, ?_⟩
  rw [List.map_cons, List.map_singleton, ht, hstop]

/-- A number that 64 bits hold is spelled by its decimal digits. -/
theorem spells_number {n : Nat} (h : n < 2 ^ 63) : Spells (toString n) (.integer (Int64.ofInt n)) := by
  obtain ⟨c, cs, hdigits⟩ := List.exists_cons_of_ne_nil (Nat.toDigits_ne_nil (n := n) (b := 10))
  have htext : toString n = String.ofList (c :: cs) := by rw [← hdigits, Nat.toString_eq_ofList_toDigits]
  rw [htext]
  refine spells_digits (fun d hd => ?_) ?_
  · rw [← hdigits] at hd
    exact Nat.isDigit_of_mem_toDigits (by decide) (by decide) hd
  · rw [← hdigits, Nat.ofDigitChars_ten_toDigits, Integer.ofInt?, if_pos]
    rw [Integer.inRange_iff]
    omega

/-! ## Words one after another -/

/-- A text and another one with a space between them. -/
theorem tokensOf_append_space {source next : String} {tokens more : List Token}
    (h : tokensOf source = .ok (tokens ++ [.endOfInput])) (hnext : tokensOf next = .ok more) :
    tokensOf (source ++ " " ++ next) = .ok (tokens ++ more) := by
  obtain ⟨all, hsource, hall⟩ := tokensOf_eq_ok.mp h
  obtain ⟨ts, last, rfl, hts, hlast⟩ := List.map_eq_append_iff.mp hall
  obtain ⟨stop, rfl, -⟩ := List.map_eq_singleton_iff.mp hlast
  obtain ⟨us, htokens, hus⟩ := tokensOf_eq_ok.mp hnext
  have happend := tokenize_append_trivia hsource isTrivia_space (List.cons_ne_nil _ _) next
  rw [htokens] at happend
  refine tokensOf_eq_ok.mpr ⟨_, happend, ?_⟩
  rw [List.map_append, hts, List.map_map, ← hus]
  rfl

/-- A text of words has their tokens. -/
theorem tokensOf_words {words : List String} {tokens : List Token} (h : List.Forall₂ Spells words tokens) :
    tokensOf (String.intercalate " " words) = .ok (tokens ++ [.endOfInput]) := by
  induction h with
  | nil => decide +kernel
  | @cons word token words tokens hword hwords ih =>
    cases hwords with
    | nil => rwa [String.intercalate_singleton]
    | cons _ _ =>
      have hfirst : tokensOf word = .ok ([token] ++ [.endOfInput]) := hword
      have hall := tokensOf_append_space hfirst ih
      rwa [← String.intercalate_cons_cons] at hall

/-- Words without a newline make a text without one. -/
theorem count_newline_words {words : List String} (h : ∀ word ∈ words, '\n' ∉ word.toList) :
    (String.intercalate " " words).toList.count '\n' = 0 := by
  rw [List.count_eq_zero]
  induction words with
  | nil => decide
  | cons word words ih =>
    obtain ⟨hword, hwords⟩ := List.forall_mem_cons.mp h
    cases words with
    | nil => rwa [String.intercalate_singleton]
    | cons next others =>
      rw [String.intercalate_cons_cons, String.toList_append, String.toList_append, List.mem_append, List.mem_append]
      rintro ((hmem | hmem) | hmem)
      · exact hword hmem
      · exact absurd hmem (by decide)
      · exact ih hwords hmem

end MiniPascal
