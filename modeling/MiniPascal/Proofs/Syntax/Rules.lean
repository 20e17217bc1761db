import MiniPascal.Proofs.Syntax.Failure
import MiniPascal.Proofs.Syntax.Layout

/-!
# One token decides

Each rule of the language can be read on its own, from the front of any list of tokens (`Parser.Rule`). Where a rule
stops, the next token has been looked at but not taken, and nothing behind it has been looked at: the reply stays the
same when the tokens that were left are replaced by others. For a success it is the kind of the next token that
matters, for a failure the token itself, which the error shows. That a list ends counts as the end of input.

* `Parser.Rule.parse_of_lookahead`: replies to inputs that go on in different ways.
-/

namespace MiniPascal.Parser

/-! ## Rules -/

inductive Rule where
  | program
  | block
  | compound
  | statement
  | expression
  | additive
  | multiplicative
  | factor
  deriving DecidableEq, Repr

namespace Rule

/-- What a rule reads. -/
def Tree : Rule → Type
  | program => Program
  | block => Block
  | compound => List Statement
  | statement => Statement
  | expression => Expr
  | additive => Expr
  | multiplicative => Expr
  | factor => Expr

def parse (rule : Rule) (ts : List Lexeme) : Reply rule.Tree ts.length :=
  match rule with
  | program => Parser.program ts
  | block => Parser.block ts
  | compound => Parser.compound ts
  | statement => Parser.statement ts
  | expression => Parser.expression ts
  | additive => Parser.additive ts
  | multiplicative => Parser.multiplicative ts
  | factor => Parser.factor ts

theorem tracks_parse {r r' : List Lexeme} (hpeek : peek r = peek r') (rule : Rule) (u : List Lexeme) :
    Tracks r r' (rule.parse (u ++ r)) (rule.parse (u ++ r')) := by
  cases rule with
  | program => exact tracks_program hpeek u
  | block => exact tracks_block hpeek u
  | compound => exact tracks_compound hpeek u
  | statement => exact tracks_statement hpeek u
  | expression => exact tracks_expression hpeek u
  | additive => exact tracks_additive hpeek u
  | multiplicative => exact tracks_multiplicative hpeek u
  | factor => exact tracks_factor hpeek u

end Rule

/-! ## Replies that leave all of `r` -/

section

variable {α : Type} {n m : Nat} {r r' : List Lexeme} {reply : Reply α n} {reply' : Reply α m}

/-- If nothing of `r` was taken, then nothing of `r'` is, and the replies agree. -/
theorem Tracks.of_rest_eq (h : Tracks r r' reply reply') (hrest : reply.rest = r) :
    (∃ a, reply.Reads a r ∧ reply'.Reads a r') ∨ ∃ expected, reply.Fails expected r ∧ reply'.Fails expected r' := by
  obtain ⟨v, ⟨a, hr, hr'⟩ | ⟨expected, hf, hf'⟩⟩ := h (Nat.le_of_eq (congrArg List.length hrest.symm))
  · obtain rfl : v = [] := List.append_left_eq_self.mp (hr.2.symm.trans hrest)
    exact .inl ⟨a, hr, hr'⟩
  · obtain rfl : v = [] := List.append_left_eq_self.mp (hf.2.symm.trans hrest)
    exact .inr ⟨expected, hf, hf'⟩

theorem exists_blame_eq (expected : Expected) (r : List Lexeme) :
    ∃ line column, blame expected r = .unexpectedToken expected (first r) line column := by
  cases r <;> exact ⟨_, _, rfl⟩

/-- Errors that show the same token are alike but for its place. -/
theorem unplaced_blame_eq (expected : Expected) (h : first r' = first r) :
    (blame expected r').unplaced = (blame expected r).unplaced := by
  obtain ⟨line, column, hblame⟩ := exists_blame_eq expected r
  obtain ⟨line', column', hblame'⟩ := exists_blame_eq expected r'
  rw [hblame, hblame', h]
  rfl

theorem first_append (v : List Lexeme) (h : first r' = first r) : first (v ++ r') = first (v ++ r) := by
  cases v with
  | nil => exact h
  | cons t tail => rfl

end

/-! ## The end of input -/

section EndOfInput

variable {α : Type} {n m : Nat} {reply : Reply α n} {reply' : Reply α m} {stop : Lexeme}

/-- The end of input behind a list is found where the list ends. -/
theorem Tracks.result_unplaced (h : Tracks [] [stop] reply reply') (hstop : stop.token = .endOfInput) :
    reply'.result.mapError SyntaxError.unplaced = reply.result.mapError SyntaxError.unplaced := by
  obtain ⟨v, ⟨a, hr, hr'⟩ | ⟨expected, hf, hf'⟩⟩ := h (Nat.zero_le _)
  · rw [hr.1, hr'.1]
  · rw [hf.1, hf'.1]
    exact congrArg Except.error (unplaced_blame_eq expected (first_append v hstop))

theorem Tracks.toEnd_unplaced (h : Tracks [] [stop] reply reply') (hstop : stop.token = .endOfInput) :
    reply'.toEnd.mapError SyntaxError.unplaced = reply.toEnd.mapError SyntaxError.unplaced := by
  obtain ⟨v, ⟨a, hr, hr'⟩ | ⟨expected, hf, hf'⟩⟩ := h (Nat.zero_le _)
  · cases v with
    | nil => rw [toEnd_of_reads_nil hr, toEnd_of_reads_cons hr', if_pos (by rw [Lexeme.kind, hstop]; rfl)]
    | cons t tail => rw [toEnd_of_reads_cons hr, toEnd_of_reads_cons hr']
  · rw [toEnd_of_fails hf, toEnd_of_fails hf']
    exact congrArg Except.error (unplaced_blame_eq expected (first_append v hstop))

end EndOfInput

/-- **One token of lookahead suffices.** A rule that has read a tree and leaves `r` reads the same tree in front of all
tokens `r'` whose first one is of the same kind, and a rule that fails in front of `r` fails in the same way in front of
all tokens that start with the same one; all of `r'` is left then. So it makes no difference whether the end of input
stands behind a list or not. -/
theorem Rule.parse_of_lookahead (rule : Rule) (u r r' : List Lexeme) :
    (∀ tree, (rule.parse (u ++ r)).result = .ok tree → (rule.parse (u ++ r)).rest = r → peek r' = peek r →
      (rule.parse (u ++ r')).result = .ok tree ∧ (rule.parse (u ++ r')).rest = r') ∧
    (∀ e, (rule.parse (u ++ r)).result = .error e → (rule.parse (u ++ r)).rest = r → first r' = first r →
      ∃ expected found line column line' column', e = .unexpectedToken expected found line column ∧
        (rule.parse (u ++ r')).result = .error (.unexpectedToken expected found line' column') ∧
        (rule.parse (u ++ r')).rest = r') ∧
    ∀ stop : Lexeme, stop.token = .endOfInput →
      (rule.parse (u ++ [stop])).result.mapError SyntaxError.unplaced =
        (rule.parse u).result.mapError SyntaxError.unplaced ∧
      (parseProgram (u ++ [stop])).mapError SyntaxError.unplaced =
        (parseProgram u).mapError SyntaxError.unplaced ∧
      (parseExpression (u ++ [stop])).mapError SyntaxError.unplaced =
        (parseExpression u).mapError SyntaxError.unplaced := by
  refine ⟨fun tree hresult hrest hpeek => ?_, fun e hresult hrest hfirst => ?_, fun stop hstop => ?_⟩
  · rcases (tracks_parse hpeek.symm rule u).of_rest_eq hrest with ⟨a, hr, hr'⟩ | ⟨expected, hf, -⟩
    · cases hresult.symm.trans hr.1
      exact hr'
    · cases hresult.symm.trans hf.1
  · have hpeek : peek r = peek r' := by rw [peek_eq, peek_eq, hfirst]
    rcases (tracks_parse hpeek rule u).of_rest_eq hrest with ⟨a, hr, -⟩ | ⟨expected, hf, hf'⟩
    · cases hresult.symm.trans hr.1
    · obtain ⟨line, column, hblame⟩ := exists_blame_eq expected r
      obtain ⟨line', column', hblame'⟩ := exists_blame_eq expected r'
      refine ⟨expected, first r, line, column, line', column', ?_, ?_, hf'.2⟩
      · rw [← hblame]
        exact Except.error.inj (hresult.symm.trans hf.1)
      · rw [hf'.1, hblame', hfirst]
  · have hpeek : peek [] = peek [stop] := by rw [peek_eq, peek_eq, first, first, hstop]
    have hrule := tracks_parse hpeek rule u
    have hprogram := tracks_program hpeek u
    have hexpression := tracks_expression hpeek u
    rw [List.append_nil] at hrule hprogram hexpression
    exact ⟨hrule.result_unplaced hstop, hprogram.toEnd_unplaced hstop, hexpression.toEnd_unplaced hstop⟩

/-- A sum is read in front of another name, whatever the name is and whatever follows it. A missing `end` is missed at
the end of a list as it is before an end of input. -/
theorem Rule.parse_of_lookahead_names :
    let sum : List Lexeme := [.loose (.identifier "x"), .loose (.mark .plus), .loose (.integer 1)]
    let y : List Lexeme := [.loose (.identifier "y")]
    let z : List Lexeme := [.loose (.identifier "z"), .loose (.mark .slash)]
    let opened : List Lexeme := [.loose (.keyword .beginBlock), .loose (.mark .semicolon)]
    let stop : Lexeme := ⟨.endOfInput, ⟨9, 2, 3⟩, 9⟩
    (peek z = peek y ∧ (expression.parse (sum ++ y)).rest = y ∧
      ∃ tree, (expression.parse (sum ++ z)).result = .ok tree ∧ (expression.parse (sum ++ z)).rest = z) ∧
    (first [stop] = first [] ∧ (compound.parse (opened ++ [])).rest = [] ∧
      ∃ expected found line column,
        (compound.parse (opened ++ [stop])).result = .error (.unexpectedToken expected found line column) ∧
        (compound.parse (opened ++ [stop])).rest = [stop]) ∧
    (parseProgram (opened ++ [stop])).mapError SyntaxError.unplaced =
      (parseProgram opened).mapError SyntaxError.unplaced := by
  intro sum y z opened stop
  have hsum : (expression.parse (sum ++ y)).result =
      .ok (.binary .add (.variable "x" 0) (.literal (.integer 1) 0) 0) := by cbv
  have hy : (expression.parse (sum ++ y)).rest = y := by cbv
  have hopened : (compound.parse (opened ++ [])).result =
      .error (.unexpectedToken (.token (.keyword .endBlock)) .endOfInput 0 0) := by cbv
  have hnil : (compound.parse (opened ++ [])).rest = [] := by cbv
  obtain ⟨hreads, -⟩ := Rule.parse_of_lookahead expression sum y z
  obtain ⟨-, hfails, hstop⟩ := Rule.parse_of_lookahead compound opened [] [stop]
  obtain ⟨expected, found, _, _, line, column, -, hresult, hrest⟩ := hfails _ hopened hnil rfl
  exact ⟨⟨rfl, hy, _, hreads _ hsum hy rfl⟩, ⟨rfl, hnil, expected, found, line, column, hresult, hrest⟩,
    (hstop stop rfl).2.1⟩

end MiniPascal.Parser
