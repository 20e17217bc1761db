import MiniPascal.Proofs.Syntax.Completion
import MiniPascal.Proofs.Syntax.Language
import MiniPascal.Proofs.Syntax.Lookahead

/-!
# Where parsing fails

What a failing rule has taken can be completed (`Stuck`). The token that it fails at is on no way to an accepted input,
because the rule would fail there again, whatever comes behind (`Tracks`).

* `parse_error_earliest`: an error is reported at the first token that no accepted input goes on with.
-/

namespace MiniPascal

namespace Parser

/-! ## Whole inputs -/

section

variable {α : Type} {n m : Nat} {reply : Reply α n} {reply' : Reply α m}

theorem toEnd_of_fails {expected : Expected} {rest : List Lexeme} (h : reply.Fails expected rest) :
    reply.toEnd = .error (blame expected rest) := by
  simp only [Reply.toEnd, h.1]

theorem toEnd_of_reads_nil {a : α} (h : reply.Reads a []) : reply.toEnd = .ok a := by
  simp only [Reply.toEnd, h.1, h.2]

theorem toEnd_of_reads_cons {a : α} {t : Lexeme} {rest : List Lexeme} (h : reply.Reads a (t :: rest)) :
    reply.toEnd = if t.kind = .endOfInput then .ok a else .error (.trailingTokens t.token t.line t.column) := by
  simp only [Reply.toEnd, h.1, h.2]

/-- An error is found again on every input that is the same up to the blamed token. -/
theorem Tracks.toEnd_eq {t : Lexeme} {rest rest' : List Lexeme} (h : Tracks (t :: rest) (t :: rest') reply reply')
    (hrest : reply.rest = t :: rest) : reply'.toEnd = reply.toEnd := by
  obtain ⟨v, ⟨a, hr, hr'⟩ | ⟨expected, hf, hf'⟩⟩ := h (Nat.le_of_eq (congrArg List.length hrest.symm))
  · obtain rfl : v = [] := List.append_left_eq_self.mp (hr.2.symm.trans hrest)
    rw [toEnd_of_reads_cons hr, toEnd_of_reads_cons hr']
  · obtain rfl : v = [] := List.append_left_eq_self.mp (hf.2.symm.trans hrest)
    rw [toEnd_of_fails hf, toEnd_of_fails hf']
    rfl

/-- How many of the tokens a rule has taken. -/
def Reply.taken (reply : Reply α n) : Nat := n - reply.rest.length

end

end Parser

/-! ## Blame -/

namespace SyntaxError

def found : SyntaxError → Token
  | unexpectedToken _ found _ _ => found
  | trailingTokens found _ _ => found

/-- The error shows a token at its place, or that the input ended. -/
def Blames (err : SyntaxError) : Option Lexeme → Prop
  | some t => err.line = t.line ∧ err.column = t.column ∧ err.found.describe = t.token.describe
  | none => err.line = 0 ∧ err.column = 0 ∧ err.found.describe = "end of input"

end SyntaxError

theorem blames_blame (expected : Expected) (rest : List Lexeme) : (Parser.blame expected rest).Blames rest.head? := by
  cases rest <;> exact ⟨rfl, rfl, rfl⟩

/-- The first `k` tokens can be completed, one more can not, and the error shows that one. -/
structure FailsEarliest {α : Type} (parse : List Lexeme → Except SyntaxError α) (ts : List Lexeme) (k : Nat)
    (err : SyntaxError) : Prop where
  completable : ∃ c a, parse (ts.take k ++ c) = .ok a
  refused : k < ts.length → ∀ c a, parse (ts.take (k + 1) ++ c) ≠ .ok a
  blames : err.Blames ts[k]?

namespace Parser

section

variable {α : Type} {rule : (ts : List Lexeme) → Reply α ts.length} {Of : List Lexeme → α → Prop}

/-- A rule reads something or blames the first token that it leaves. -/
theorem reads_or_fails (htracks : ∀ {r r'}, peek r = peek r' → ∀ u, Tracks r r' (rule (u ++ r)) (rule (u ++ r')))
    (ts : List Lexeme) :
    ∃ rest, (∃ a, (rule ts).Reads a rest) ∨ ∃ expected, (rule ts).Fails expected rest := by
  -- nothing can be taken of an empty rest, so the reply is compared with itself on all inputs
  have h : Tracks [] [] (rule (ts ++ [])) (rule (ts ++ [])) := htracks rfl ts
  rw [List.append_nil] at h
  obtain ⟨v, ⟨a, hr, -⟩ | ⟨expected, hf, -⟩⟩ := h (Nat.zero_le _)
  · exact ⟨_, .inl ⟨a, hr⟩⟩
  · exact ⟨_, .inr ⟨expected, hf⟩⟩

/-- A whole input fails where its rule does, or behind what the rule has read. -/
theorem stuck_of_toEnd_eq_error
    (htracks : ∀ {r r'}, peek r = peek r' → ∀ u, Tracks r r' (rule (u ++ r)) (rule (u ++ r')))
    (hsound : ∀ {ts rest a}, (rule ts).Reads a rest → ∃ w, ts = w ++ rest ∧ Of w a)
    (hstuck : ∀ {ts rest expected}, (rule ts).Fails expected rest → Stuck Of ts rest) {ts : List Lexeme}
    {err : SyntaxError} (h : (rule ts).toEnd = .error err) :
    Stuck Of ts (rule ts).rest ∧ err.Blames (rule ts).rest.head? := by
  obtain ⟨rest, ⟨a, hr⟩ | ⟨expected, hf⟩⟩ := reads_or_fails htracks ts
  · obtain ⟨w, hts, hw⟩ := hsound hr
    rw [hr.2]
    refine ⟨⟨w, [], a, hts, by simpa using hw⟩, ?_⟩
    cases rest with
    | nil => cases (toEnd_of_reads_nil hr).symm.trans h
    | cons t tail =>
      rw [toEnd_of_reads_cons hr] at h
      split at h
      · cases h
      · cases h
        exact ⟨rfl, rfl, rfl⟩
  · rw [toEnd_of_fails hf] at h
    cases h
    rw [hf.2]
    exact ⟨hstuck hf, blames_blame expected rest⟩

theorem failsEarliest (htracks : ∀ {r r'}, peek r = peek r' → ∀ u, Tracks r r' (rule (u ++ r)) (rule (u ++ r')))
    (hsound : ∀ {ts rest a}, (rule ts).Reads a rest → ∃ w, ts = w ++ rest ∧ Of w a)
    (hstuck : ∀ {ts rest expected}, (rule ts).Fails expected rest → Stuck Of ts rest)
    (haccepts : ∀ {w a}, Of w a → (rule w).toEnd = .ok a) {ts : List Lexeme} {err : SyntaxError}
    (h : (rule ts).toEnd = .error err) :
    (rule ts).rest = ts.drop (rule ts).taken ∧
      FailsEarliest (fun ts => (rule ts).toEnd) ts (rule ts).taken err := by
  obtain ⟨hstuck, hblames⟩ := stuck_of_toEnd_eq_error htracks hsound hstuck h
  generalize hrest : (rule ts).rest = rest at hstuck hblames ⊢
  obtain ⟨u, v, a, rfl, hword⟩ := hstuck
  have htaken : (rule (u ++ rest)).taken = u.length := by
    rw [Reply.taken, hrest, List.length_append, Nat.add_sub_cancel]
  rw [htaken]
  refine ⟨List.drop_left.symm, ⟨v, a, ?_⟩, fun hlt c b => ?_, ?_⟩
  · rw [List.take_left]
    exact haccepts hword
  · cases rest with
    | nil => simp at hlt
    | cons t tail =>
      have htake : (u ++ t :: tail).take (u.length + 1) ++ c = u ++ t :: c := by
        rw [List.take_length_add_append, List.append_assoc]
        rfl
      have hpeek : peek (t :: tail) = peek (t :: c) := rfl
      rw [htake, (htracks hpeek u).toEnd_eq hrest, h]
      nofun
  · rwa [← List.head?_drop, List.drop_left]

end

end Parser

/-- **Errors are reported at the earliest possible token.** What a failing parser has taken is the start of an accepted
input, and no accepted input goes on with the token that the error shows. -/
theorem parse_error_earliest (ts : List Lexeme) (err : SyntaxError) :
    (parseProgram ts = .error err →
      (Parser.program ts).rest = ts.drop (Parser.program ts).taken ∧
        FailsEarliest parseProgram ts (Parser.program ts).taken err) ∧
    (parseExpression ts = .error err →
      (Parser.expression ts).rest = ts.drop (Parser.expression ts).taken ∧
        FailsEarliest parseExpression ts (Parser.expression ts).taken err) := by
  refine ⟨fun h => ?_, fun h => ?_⟩
  · refine Parser.failsEarliest Parser.tracks_program Parser.exists_programOf Parser.stuck_program (fun hw => ?_) h
    exact Parser.parseProgram_eq_ok.mpr ⟨_, ⟨Grammar.endFree_programOf hw, .inl rfl⟩, hw⟩
  · refine Parser.failsEarliest Parser.tracks_expression Parser.exists_expressionOf Parser.stuck_expression
      (fun hw => ?_) h
    exact Parser.parseExpression_eq_ok.mpr ⟨_, ⟨Grammar.endFree_expressionOf hw, .inl rfl⟩, hw⟩

/-- `program x; begin )`, with the parenthesis on the second line. -/
def strayParenthesis : List Lexeme :=
  [Parser.missing (.keyword .program), Parser.missingName, Parser.missing (.mark .semicolon),
    Parser.missing (.keyword .beginBlock), ⟨.mark .rightParen, ⟨17, 2, 7⟩, 18⟩]

/-- The parenthesis is refused although the empty statement before it was accepted; `x +` lacks an operand at its
end. -/
theorem parse_error_earliest_strayParenthesis :
    (parseProgram strayParenthesis = .error (.unexpectedToken (.token (.keyword .endBlock)) (.mark .rightParen) 2 7) ∧
      FailsEarliest parseProgram strayParenthesis 4
        (.unexpectedToken (.token (.keyword .endBlock)) (.mark .rightParen) 2 7)) ∧
    (parseExpression [Parser.missingName, Parser.missing (.mark .plus)] =
        .error (.unexpectedToken .expression .endOfInput 0 0) ∧
      FailsEarliest parseExpression [Parser.missingName, Parser.missing (.mark .plus)] 2
        (.unexpectedToken .expression .endOfInput 0 0)) := by
  have hprogram : parseProgram strayParenthesis =
      .error (.unexpectedToken (.token (.keyword .endBlock)) (.mark .rightParen) 2 7) := by cbv
  have hexpression : parseExpression [Parser.missingName, Parser.missing (.mark .plus)] =
      .error (.unexpectedToken .expression .endOfInput 0 0) := by cbv
  have htaken : (Parser.program strayParenthesis).taken = 4 := by cbv
  have htaken' : (Parser.expression [Parser.missingName, Parser.missing (.mark .plus)]).taken = 2 := by cbv
  have hfails := ((parse_error_earliest _ _).1 hprogram).2
  have hfails' := ((parse_error_earliest _ _).2 hexpression).2
  rw [htaken] at hfails
  rw [htaken'] at hfails'
  exact ⟨⟨hprogram, hfails⟩, hexpression, hfails'⟩

end MiniPascal
