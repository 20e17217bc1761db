import MiniPascal.Proofs.Access
import MiniPascal.Proofs.Evaluation.Assignments
import MiniPascal.Proofs.Syntax.Language
import MiniPascal.Proofs.Token.Composition

/-!
# Expressions as programs

An expression can be evaluated alone, or a program can assign it to a variable (`assigning`). The program has the tokens
of the expression in its middle (`tokenize_assigning`), so its tree assigns the tree of the expression
(`Grammar.programOf_assigned`). A sound expression reads no variable, so that it makes no difference that one is
declared.

* `runProgram_assigning`: both have the same value, the same fault of an operation or the same lexical fault.
-/

namespace MiniPascal

open Lexer

/-- A program that assigns an expression to its only variable. -/
def assigning (source : String) : String := "program p; var x: integer; begin x := " ++ source ++ " end."

/-- The tree of such a program. -/
def assigned (value : Expr) : Program := ⟨"p", ⟨[.variable ⟨"x", ⟨.integer, 1⟩, 1⟩], [.assign "x" 1 value 1]⟩, 1⟩

/-! ## Tokens -/

/-- What stands before the expression. -/
def opening : List Char := "program p; var x: integer; begin x := ".toList

/-- The tokens before the expression. -/
def heading : List Lexeme :=
  [⟨.keyword .program, ⟨0, 1, 1⟩, 7⟩, ⟨.identifier "p", ⟨8, 1, 9⟩, 9⟩, ⟨.mark .semicolon, ⟨9, 1, 10⟩, 10⟩,
    ⟨.keyword .var, ⟨11, 1, 12⟩, 14⟩, ⟨.identifier "x", ⟨15, 1, 16⟩, 16⟩, ⟨.mark .colon, ⟨16, 1, 17⟩, 17⟩,
    ⟨.keyword .integer, ⟨18, 1, 19⟩, 25⟩, ⟨.mark .semicolon, ⟨25, 1, 26⟩, 26⟩, ⟨.keyword .beginBlock, ⟨27, 1, 28⟩, 32⟩,
    ⟨.identifier "x", ⟨33, 1, 34⟩, 34⟩, ⟨.mark .assign, ⟨35, 1, 36⟩, 37⟩]

theorem tokenize_heading :
    tokenize "program p; var x: integer; begin x :=" = .ok (heading ++ [⟨.endOfInput, ⟨37, 1, 38⟩, 37⟩]) := by
  decide +kernel

/-- The tokens behind the expression. -/
def closing : List Lexeme := [⟨.keyword .endBlock, ⟨0, 1, 1⟩, 3⟩, ⟨.mark .dot, ⟨3, 1, 4⟩, 4⟩]

theorem tokenize_closing : tokenize "end." = .ok (closing ++ [⟨.endOfInput, ⟨4, 1, 5⟩, 4⟩]) := by
  decide +kernel

/-- The heading comes first, whatever follows it. -/
theorem tokenize_opening (source : String) :
    tokenize ("program p; var x: integer; begin x := " ++ source) =
      (tokensBehind opening (tokenize source)).map (heading ++ ·) :=
  tokenize_append_trivia tokenize_heading isTrivia_space (List.cons_ne_nil _ _) source

theorem count_opening : opening.count '\n' = 0 := by decide +kernel

theorem token_behind_opening (t : Lexeme) : (t.behind opening).token = t.token := rfl

/-- The opening stands on one line. -/
theorem line_behind_opening (t : Lexeme) : (t.behind opening).line = t.line := by
  simp [Lexeme.behind, Lexeme.line, Position.behind, count_opening]

/-- The tokens of the expression stand in the middle. -/
theorem tokenize_assigning {source : String} {ts : List Lexeme} {stop : Lexeme}
    (h : tokenize source = .ok (ts ++ [stop])) :
    ∃ stop', stop'.token = .endOfInput ∧
      tokenize (assigning source) =
        .ok (heading ++ (ts ++ closing.map (Lexeme.behind (source.toList ++ [' ']))).map (Lexeme.behind opening) ++
          [stop']) := by
  have hclosing := tokenize_append_trivia h isTrivia_space (List.cons_ne_nil _ _) "end."
  rw [tokenize_closing, String.append_assoc] at hclosing
  have hsource : tokenize (source ++ " end.") = _ := hclosing
  have hall := tokenize_opening (source ++ " end.")
  rw [hsource, ← String.append_assoc] at hall
  refine ⟨((⟨.endOfInput, ⟨4, 1, 5⟩, 4⟩ : Lexeme).behind (source.toList ++ [' '])).behind opening, rfl, hall.trans ?_⟩
  simp only [tokensBehind, Except.map, List.map_append, List.map_cons, List.map_nil, List.append_assoc]

theorem separates_closing : Separates " end.".toList := isTrivia_space.separates (List.cons_ne_nil _ _) "end.".toList

theorem tokenize_assigning_of_error {source : String} {e : LexicalError} (h : tokenize source = .error e) :
    tokenize (assigning source) = .error (e.behind opening) := by
  have hmore := tokenize_append_of_error h separates_closing (by decide)
  unfold assigning
  rw [String.append_assoc, tokenize_opening, hmore]
  simp only [tokensBehind, Except.map]

/-! ## Trees -/

theorem Grammar.programOf_assigned {w v : List Lexeme} {value : Expr} (h : ExpressionOf w value)
    (hv : v.map Lexeme.token = [.keyword .endBlock, .mark .dot]) :
    ProgramOf (heading ++ (w ++ v)) (assigned value) := by
  obtain ⟨close, rest, rfl, hclose, hrest⟩ := List.map_eq_cons_iff.mp hv
  obtain ⟨point, rest, rfl, hpoint, hnil⟩ := List.map_eq_cons_iff.mp hrest
  obtain rfl := List.map_eq_nil_iff.mp hnil
  have hgroup := @GroupOf.mk heading[5] heading[6] _ _ .integer (@NamesOf.last heading[4] _ rfl) rfl rfl
  have hsection := @VariableSectionOf.some heading[3] _ _ rfl (@VariablesOf.last heading[7] _ _ hgroup rfl)
  have hassignment := @StatementOf.assignment heading[9] heading[10] _ _ _ rfl rfl h
  have hbody := @CompoundOf.mk heading[8] close _ _ rfl (.last hassignment) hclose
  have hprogram := @ProgramOf.mk heading[0] heading[1] heading[2] point _ _ _ rfl rfl rfl
    (.mk (.mk hsection .none) hbody) hpoint
  simpa [heading, assigned, Lexeme.line] using hprogram

theorem parseProgram_assigning {source : String} {tokens : List Lexeme} {value : Expr}
    (htokens : tokenize source = .ok tokens) (hvalue : parseExpression tokens = .ok value) :
    ∃ all, tokenize (assigning source) = .ok all ∧ parseProgram all = .ok (assigned value) := by
  obtain ⟨ts, last, stop, hyields, -, hstop, rfl⟩ := exists_yields_of_tokenize htokens
  obtain ⟨w, hw, hexpression⟩ := Parser.parseExpression_eq_ok.mp hvalue
  obtain rfl := hw.eq_of_concat hyields.token_ne_endOfInput hstop
  obtain ⟨stop', hstop', hall⟩ := tokenize_assigning htokens
  rw [List.map_append] at hall
  have hbehind := Grammar.expressionOf_map token_behind_opening line_behind_opening hexpression
  have hclosing : ((closing.map (Lexeme.behind (source.toList ++ [' ']))).map (Lexeme.behind opening)).map
      Lexeme.token = [.keyword .endBlock, .mark .dot] := rfl
  have hprogram := Grammar.programOf_assigned hbehind hclosing
  have hend : UpToEnd _ _ := ⟨Grammar.endFree_programOf hprogram, .inr ⟨stop', [], hstop', (List.append_nil _).symm⟩⟩
  exact ⟨_, hall, Parser.parseProgram_eq_ok.mpr ⟨_, hend, hprogram⟩⟩

/-! ## Names and values -/

theorem result_checkProgram_assigned {value : Expr} (h : value.accesses = []) :
    (Analysis.checkProgram (assigned value) Analysis.start).result = .ok () := by
  have hdeclared : (Analysis.checkDeclarations [.variable ⟨"x", ⟨.integer, 1⟩, 1⟩] Analysis.start).result = .ok () := by
    decide +kernel
  rw [Analysis.result_checkProgram, Analysis.result_checkBlock_eq_ok, Analysis.result_checkStatements_eq_ok]
  refine ⟨hdeclared, ?_⟩
  simp only [assigned, Statement.allAccesses, Statement.accesses, h, List.nil_append, List.append_nil]
  intro a ha
  obtain rfl := List.mem_singleton.mp ha
  exact ⟨_, rfl⟩

theorem eval_of_accesses_nil {e : Expr} (h : e.accesses = []) (context context' : Context) :
    context.eval e = context'.eval e := by
  apply Context.eval_congr
  intro name line hread
  rw [h] at hread
  cases hread

/-- The only assignment decides how the program ends. -/
theorem runProgram_assigned {value : Expr} {context : Context} :
    (∀ v, (context.declare "x").eval value = .ok v →
      (Evaluation.runProgram (assigned value) context).result = .ok (some v) ∧
      (Evaluation.runProgram (assigned value) context).state.store = context.store.assign "x" v) ∧
    ∀ e, (context.declare "x").eval value = .error e →
      (Evaluation.runProgram (assigned value) context).result = .error e := by
  rw [Evaluation.runProgram_apply, Evaluation.runBlock_apply]
  have hblock : (assigned value).block.assignments = [⟨"x", value⟩] := rfl
  have hnames : (assigned value).block.variableNames.foldl Context.declare context = context.declare "x" := rfl
  rw [hblock, hnames]
  constructor
  · intro v hv
    rw [Evaluation.runAssignments_cons_of_ok hv]
    exact ⟨rfl, rfl⟩
  · intro e he
    rw [Evaluation.runAssignments_cons_of_error he]

/-- A program that assigns a sound expression ends as the expression does. -/
theorem runProgram_of_evaluated {source : String} {outcome : Except RuntimeError Value}
    (h : evaluateExpression source = outcome.mapError .runtime) :
    runProgram (assigning source) =
      (outcome.map fun v => ⟨some v, Store.empty.assign "x" v⟩).mapError .runtime := by
  obtain ⟨tokens, value, htokens, hvalue, hsound, heval⟩ := exists_of_evaluateExpression h
  have hreads := Analysis.accesses_of_checkExpr_start hsound
  obtain ⟨all, hall, hprogram⟩ := parseProgram_assigning htokens hvalue
  rw [runProgram_of_sound hall hprogram (result_checkProgram_assigned hreads)]
  -- the program evaluates with `x` declared, which an expression that reads nothing cannot tell
  rw [eval_of_accesses_nil hreads _ ((Context.ofStore .empty).declare "x")] at heval
  cases outcome with
  | ok v =>
    obtain ⟨hresult, hstore⟩ := runProgram_assigned.1 v heval
    rw [hresult, hstore]
    rfl
  | error e =>
    rw [runProgram_assigned.2 e heval]
    rfl

theorem behind_opening (e : LexicalError) :
    e.behind opening = ⟨e.fault, e.line, if e.line = 1 then 38 + e.column else e.column⟩ := by
  have hlength : (lastLine opening).length = 38 := by decide +kernel
  simp [LexicalError.behind, count_opening, hlength]

/-- **An expression has the value that a program assigns.** If it has none because an operation fails or a token cannot
be read, the program fails in the same way on the same line. -/
theorem runProgram_assigning (source : String) :
    (∀ v, evaluateExpression source = .ok v →
      ∃ report, runProgram (assigning source) = .ok report ∧ report.result = some v ∧
        report.store.entries = [("x", v)]) ∧
    (∀ e, evaluateExpression source = .error (.runtime e) → runProgram (assigning source) = .error (.runtime e)) ∧
    ∀ e, evaluateExpression source = .error (.lexical e) →
      runProgram (assigning source) =
        .error (.lexical ⟨e.fault, e.line, if e.line = 1 then 38 + e.column else e.column⟩) := by
  refine ⟨fun v h => ?_, fun e h => ?_, fun e h => ?_⟩
  · exact ⟨_, @runProgram_of_evaluated source (.ok v) h, rfl, rfl⟩
  · exact @runProgram_of_evaluated source (.error e) h
  · rw [← behind_opening]
    exact runProgram_of_lexical (tokenize_assigning_of_error (tokenize_of_evaluateExpression h))

/-- A number at the very end, a division by zero in front of a comment, and a comment that stays open. -/
theorem runProgram_assigning_lines :
    let value := "7 div\n2"
    let failing := "1 +\n2 div (3 - 3) \x7b?\x7d"
    let unclosed := "1 +\n 2 \x7b 3"
    (evaluateExpression value = .ok (.integer 3) ∧
      ∃ report, runProgram (assigning value) = .ok report ∧ report.result = some (.integer 3) ∧
        report.store.entries = [("x", .integer 3)]) ∧
    (evaluateExpression failing = .error (.runtime (.divisionByZero 2)) ∧
      runProgram (assigning failing) = .error (.runtime (.divisionByZero 2))) ∧
    evaluateExpression unclosed = .error (.lexical ⟨.unterminatedComment, 2, 4⟩) ∧
      runProgram (assigning unclosed) = .error (.lexical ⟨.unterminatedComment, 2, 4⟩) := by
  intro value failing unclosed
  have hvalue : evaluateExpression value = .ok (.integer 3) := by decide +kernel
  have hfailing : evaluateExpression failing = .error (.runtime (.divisionByZero 2)) := by decide +kernel
  have hunclosed : evaluateExpression unclosed = .error (.lexical ⟨.unterminatedComment, 2, 4⟩) := by decide +kernel
  exact ⟨⟨hvalue, (runProgram_assigning value).1 _ hvalue⟩, ⟨hfailing, (runProgram_assigning failing).2.1 _ hfailing⟩,
    hunclosed, (runProgram_assigning unclosed).2.2 _ hunclosed⟩

end MiniPascal
