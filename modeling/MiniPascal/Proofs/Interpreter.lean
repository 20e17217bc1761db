import MiniPascal.Interpreter

/-!
# Runs as a chain of stages

Without its log, a run is its stages one after the other, each of which may fail.

* `runProgram_eq_ok`: a program has a report when all its stages succeed.
* `runProgram_cases`, `evaluateExpression_cases`: what becomes of a program and of an expression.
* `runProgram_of_sound`, `evaluateExpression_of_sound`: without a fault in the stages before, the tree is evaluated.
-/

namespace MiniPascal

theorem runProgram_eq (source : String) :
    runProgram source = do
      let tokens ← (tokenize source).mapError .lexical
      let tree ← (parseProgram tokens).mapError .syntactic
      (Analysis.checkProgram tree Analysis.start).result.mapError .semantic
      let result ← (Evaluation.runProgram tree (.ofStore .empty)).result.mapError .runtime
      return ⟨result, (Evaluation.runProgram tree (.ofStore .empty)).state.store⟩ := by
  simp only [runProgram, Interpreter.program, Interpreter.readTokens, Interpreter.programOf, Traced.result_bind,
    Traced.ofExcept, Traced.emit, Traced.result_inside, Traced.pure_apply]
  cases tokenize source with
  | error e => rfl
  | ok tokens =>
    dsimp only [Except.mapError, bind, Except.bind]
    cases parseProgram tokens with
    | error e => rfl
    | ok tree =>
      dsimp only
      cases (Analysis.checkProgram tree Analysis.start).result with
      | error e => rfl
      | ok _ =>
        cases (Evaluation.runProgram tree (.ofStore .empty)).result <;> rfl

/-- A stage succeeds and the next one starts from its result. -/
theorem mapError_bind_eq_ok {ε δ α β : Type} {x : Except ε α} {fault : ε → δ} {next : α → Except δ β} {b : β} :
    (x.mapError fault >>= next) = .ok b ↔ ∃ a, x = .ok a ∧ next a = .ok b := by
  cases x with
  | error e =>
    constructor
    · intro h
      cases h
    · rintro ⟨a, h, -⟩
      cases h
  | ok a =>
    constructor
    · intro h
      exact ⟨a, rfl, h⟩
    · rintro ⟨a', h, hnext⟩
      cases h
      exact hnext

/-- A run succeeds when all its stages do. -/
theorem runProgram_eq_ok {source : String} {report : Report} :
    runProgram source = .ok report ↔
      ∃ tokens tree, tokenize source = .ok tokens ∧ parseProgram tokens = .ok tree ∧
        (Analysis.checkProgram tree Analysis.start).result = .ok () ∧
        (Evaluation.runProgram tree (.ofStore .empty)).result = .ok report.result ∧
        (Evaluation.runProgram tree (.ofStore .empty)).state.store = report.store := by
  rw [runProgram_eq]
  constructor
  · intro h
    obtain ⟨tokens, htokens, h⟩ := mapError_bind_eq_ok.mp h
    obtain ⟨tree, htree, h⟩ := mapError_bind_eq_ok.mp h
    obtain ⟨_, hsound, h⟩ := mapError_bind_eq_ok.mp h
    obtain ⟨result, hresult, h⟩ := mapError_bind_eq_ok.mp h
    cases h
    exact ⟨tokens, tree, htokens, htree, hsound, hresult, rfl⟩
  · rintro ⟨tokens, tree, htokens, htree, hsound, hresult, hstore⟩
    refine mapError_bind_eq_ok.mpr ⟨tokens, htokens, mapError_bind_eq_ok.mpr ⟨tree, htree, ?_⟩⟩
    refine mapError_bind_eq_ok.mpr ⟨(), hsound, mapError_bind_eq_ok.mpr ⟨_, hresult, ?_⟩⟩
    rw [hstore]
    rfl

theorem runProgram_of_lexical {source : String} {e : LexicalError} (h : tokenize source = .error e) :
    runProgram source = .error (.lexical e) := by
  rw [runProgram_eq, h]
  rfl

/-- The run of a sound program is that of its tree. -/
theorem runProgram_of_sound {source : String} {tokens : List Lexeme} {tree : Program}
    (htokens : tokenize source = .ok tokens) (htree : parseProgram tokens = .ok tree)
    (hsound : (Analysis.checkProgram tree Analysis.start).result = .ok ()) :
    runProgram source =
      match (Evaluation.runProgram tree (.ofStore .empty)).result with
      | .ok result => .ok ⟨result, (Evaluation.runProgram tree (.ofStore .empty)).state.store⟩
      | .error e => .error (.runtime e) := by
  rw [runProgram_eq, htokens]
  dsimp only [Except.mapError, bind, Except.bind]
  rw [htree]
  dsimp only
  rw [hsound]
  cases (Evaluation.runProgram tree (.ofStore .empty)).result <;> rfl

/-- What becomes of a program: one of its stages fails, or its run is that of its tree. -/
theorem runProgram_cases (source : String) :
    (∃ e, tokenize source = .error e ∧ runProgram source = .error (.lexical e)) ∨
    (∃ tokens e, tokenize source = .ok tokens ∧ parseProgram tokens = .error e ∧
      runProgram source = .error (.syntactic e)) ∨
    (∃ tokens tree e, tokenize source = .ok tokens ∧ parseProgram tokens = .ok tree ∧
      (Analysis.checkProgram tree Analysis.start).result = .error e ∧ runProgram source = .error (.semantic e)) ∨
    ∃ tokens tree, tokenize source = .ok tokens ∧ parseProgram tokens = .ok tree ∧
      (Analysis.checkProgram tree Analysis.start).result = .ok () ∧
      runProgram source =
        match (Evaluation.runProgram tree (.ofStore .empty)).result with
        | .ok result => .ok ⟨result, (Evaluation.runProgram tree (.ofStore .empty)).state.store⟩
        | .error e => .error (.runtime e) := by
  cases htokens : tokenize source with
  | error e => exact .inl ⟨e, rfl, runProgram_of_lexical htokens⟩
  | ok tokens =>
    refine .inr ?_
    cases htree : parseProgram tokens with
    | error e =>
      refine .inl ⟨tokens, e, rfl, htree, ?_⟩
      rw [runProgram_eq, htokens]
      dsimp only [Except.mapError, bind, Except.bind]
      rw [htree]
    | ok tree =>
      refine .inr ?_
      cases hsound : (Analysis.checkProgram tree Analysis.start).result with
      | error e =>
        refine .inl ⟨tokens, tree, e, rfl, htree, hsound, ?_⟩
        rw [runProgram_eq, htokens]
        dsimp only [Except.mapError, bind, Except.bind]
        rw [htree]
        dsimp only
        rw [hsound]
      | ok _ => exact .inr ⟨tokens, tree, rfl, htree, hsound, runProgram_of_sound htokens htree hsound⟩

/-- A fault of the scoping is that of a tree. -/
theorem exists_of_runProgram_semantic {source : String} {e : SemanticError}
    (h : runProgram source = .error (.semantic e)) :
    ∃ tokens tree, tokenize source = .ok tokens ∧ parseProgram tokens = .ok tree ∧
      (Analysis.checkProgram tree Analysis.start).result = .error e := by
  rcases runProgram_cases source with
    ⟨_, -, h'⟩ | ⟨_, _, -, -, h'⟩ | ⟨tokens, tree, e', htokens, htree, hfault, h'⟩ | ⟨_, tree, -, -, -, h'⟩
  · cases h.symm.trans h'
  · cases h.symm.trans h'
  · cases h.symm.trans h'
    exact ⟨tokens, tree, htokens, htree, hfault⟩
  · rw [h] at h'
    split at h' <;> cases h'

/-- What becomes of an expression: one of its stages fails, or it has the value of its tree. -/
theorem evaluateExpression_cases (source : String) :
    (∃ e, tokenize source = .error e ∧ evaluateExpression source = .error (.lexical e)) ∨
    (∃ tokens e, tokenize source = .ok tokens ∧ parseExpression tokens = .error e ∧
      evaluateExpression source = .error (.syntactic e)) ∨
    (∃ tokens tree e, tokenize source = .ok tokens ∧ parseExpression tokens = .ok tree ∧
      (Analysis.checkExpr tree Analysis.start).result = .error e ∧
      evaluateExpression source = .error (.semantic e)) ∨
    ∃ tokens tree, tokenize source = .ok tokens ∧ parseExpression tokens = .ok tree ∧
      (Analysis.checkExpr tree Analysis.start).result = .ok () ∧
      evaluateExpression source = ((Context.ofStore .empty).eval tree).mapError .runtime := by
  simp only [evaluateExpression, Interpreter.expression, Interpreter.readTokens, Interpreter.expressionOf,
    Traced.result_bind, Traced.ofExcept, Traced.result_inside]
  cases tokenize source with
  | error e => exact .inl ⟨e, rfl, rfl⟩
  | ok tokens =>
    refine .inr ?_
    dsimp only [Except.mapError, bind, Except.bind]
    cases htree : parseExpression tokens with
    | error e => exact .inl ⟨tokens, e, rfl, htree, rfl⟩
    | ok tree =>
      refine .inr ?_
      dsimp only
      cases hsound : (Analysis.checkExpr tree Analysis.start).result with
      | error e => exact .inl ⟨tokens, tree, e, rfl, htree, hsound, rfl⟩
      | ok _ => exact .inr ⟨tokens, tree, rfl, htree, hsound, rfl⟩

/-- The value of a sound expression is that of its tree. -/
theorem evaluateExpression_of_sound {source : String} {tokens : List Lexeme} {tree : Expr}
    (htokens : tokenize source = .ok tokens) (htree : parseExpression tokens = .ok tree)
    (hsound : (Analysis.checkExpr tree Analysis.start).result = .ok ()) :
    evaluateExpression source = ((Context.ofStore .empty).eval tree).mapError .runtime := by
  rcases evaluateExpression_cases source with ⟨e, hlexed, -⟩ | ⟨tokens', e, hlexed, hparsed, -⟩ |
    ⟨tokens', tree', e, hlexed, hparsed, hchecked, -⟩ | ⟨tokens', tree', hlexed, hparsed, -, h⟩
  · cases htokens.symm.trans hlexed
  · cases htokens.symm.trans hlexed
    cases htree.symm.trans hparsed
  · cases htokens.symm.trans hlexed
    cases htree.symm.trans hparsed
    cases hsound.symm.trans hchecked
  · cases htokens.symm.trans hlexed
    cases htree.symm.trans hparsed
    exact h

theorem tokenize_of_evaluateExpression {source : String} {e : LexicalError}
    (h : evaluateExpression source = .error (.lexical e)) : tokenize source = .error e := by
  rcases evaluateExpression_cases source with
    ⟨e', htokens, h'⟩ | ⟨_, _, -, -, h'⟩ | ⟨_, _, _, -, -, -, h'⟩ | ⟨_, tree, -, -, -, h'⟩
  · cases h.symm.trans h'
    exact htokens
  · cases h.symm.trans h'
  · cases h.symm.trans h'
  · rw [h] at h'
    generalize (Context.ofStore .empty).eval tree = outcome at h'
    cases outcome <;> cases h'

theorem exists_of_evaluateExpression_semantic {source : String} {e : SemanticError}
    (h : evaluateExpression source = .error (.semantic e)) :
    ∃ tokens tree, tokenize source = .ok tokens ∧ parseExpression tokens = .ok tree ∧
      (Analysis.checkExpr tree Analysis.start).result = .error e := by
  rcases evaluateExpression_cases source with
    ⟨_, -, h'⟩ | ⟨_, _, -, -, h'⟩ | ⟨tokens, tree, e', htokens, htree, hfault, h'⟩ | ⟨_, tree, -, -, -, h'⟩
  · cases h.symm.trans h'
  · cases h.symm.trans h'
  · cases h.symm.trans h'
    exact ⟨tokens, tree, htokens, htree, hfault⟩
  · rw [h] at h'
    generalize (Context.ofStore .empty).eval tree = outcome at h'
    cases outcome <;> cases h'

theorem eq_of_mapError_runtime {x y : Except RuntimeError Value} (h : x.mapError Fault.runtime = y.mapError .runtime) :
    x = y := by
  cases x <;> cases y <;> cases h <;> rfl

/-- An expression that is evaluated at all is sound. -/
theorem exists_of_evaluateExpression {source : String} {outcome : Except RuntimeError Value}
    (h : evaluateExpression source = outcome.mapError .runtime) :
    ∃ tokens tree, tokenize source = .ok tokens ∧ parseExpression tokens = .ok tree ∧
      (Analysis.checkExpr tree Analysis.start).result = .ok () ∧ (Context.ofStore .empty).eval tree = outcome := by
  rcases evaluateExpression_cases source with
    ⟨e, -, h'⟩ | ⟨_, e, -, -, h'⟩ | ⟨_, _, e, -, -, -, h'⟩ | ⟨tokens, tree, htokens, htree, hsound, h'⟩
  · cases outcome <;> cases h.symm.trans h'
  · cases outcome <;> cases h.symm.trans h'
  · cases outcome <;> cases h.symm.trans h'
  · exact ⟨tokens, tree, htokens, htree, hsound, eq_of_mapError_runtime (h'.symm.trans h)⟩

end MiniPascal
