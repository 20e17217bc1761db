import MiniPascal.Proofs.Interpreter
import MiniPascal.Proofs.Syntax.Layout
import MiniPascal.Proofs.Token.Positions

/-!
# Layout

How a text is laid out decides where its tokens stand and nothing else. Analysis and evaluation copy the lines of a tree
into their faults and never look at them, so walking a tree without places is the same walk with faults without places
(`Traced.mapFault`). Together with `parseProgram_unplaced` this holds of whole runs.

* `run_of_same_tokens`: texts with the same tokens have the same outcome, up to places.
-/

namespace MiniPascal

/-! ## Faults without places -/

def LexicalError.unplaced (e : LexicalError) : LexicalError := { e with line := 0, column := 0 }

def SemanticError.unplaced : SemanticError → SemanticError
  | duplicateIdentifier name scope _ => duplicateIdentifier name scope 0
  | unknownType name _ => unknownType name 0
  | undeclaredIdentifier name _ => undeclaredIdentifier name 0
  | notAVariable name _ => notAVariable name 0

def RuntimeError.unplaced : RuntimeError → RuntimeError
  | unknownVariable name _ => unknownVariable name 0
  | unassignedVariable name _ => unassignedVariable name 0
  | divisionByZero _ => divisionByZero 0
  | overflow _ => overflow 0

def Fault.unplaced : Fault → Fault
  | lexical e => lexical e.unplaced
  | syntactic e => syntactic e.unplaced
  | semantic e => semantic e.unplaced
  | runtime e => runtime e.unplaced

/-! ## Computations with other faults -/

namespace Traced

variable {σ τ ε δ ζ η α β : Type}

/-- The same computation with its faults changed. -/
def mapFault (f : ε → δ) (x : Traced σ ε α) : Traced σ δ α := fun s =>
  ⟨(x s).result.mapError f, (x s).state, (x s).events⟩

variable (f : ε → δ)

theorem mapFault_apply (x : Traced σ ε α) (s : σ) :
    x.mapFault f s = ⟨(x s).result.mapError f, (x s).state, (x s).events⟩ := rfl

theorem mapFault_pure (a : α) : (pure a : Traced σ ε α).mapFault f = pure a := rfl

theorem mapFault_emit (event : Event) : (emit event : Traced σ ε Unit).mapFault f = emit event := rfl

theorem mapFault_ofExcept (x : Except ε α) :
    (ofExcept x : Traced σ ε α).mapFault f = ofExcept (x.mapError f) := rfl

theorem mapFault_bind (x : Traced σ ε α) (next : α → Traced σ ε β) :
    (x >>= next).mapFault f = x.mapFault f >>= fun a => (next a).mapFault f := by
  funext s
  simp only [mapFault_apply, bind_apply]
  cases (x s).result <;> rfl

theorem mapFault_map (g : α → β) (x : Traced σ ε α) : (g <$> x).mapFault f = g <$> x.mapFault f := by
  funext s
  simp only [mapFault_apply, map_apply]
  cases (x s).result <;> rfl

/-- A fault may be changed before or after it becomes one of the computation around. -/
theorem inside_mapFault {f : ε → δ} {g : ζ → η} {fault : ε → ζ} {fault' : δ → η} (h : ∀ e, fault' (f e) = g (fault e))
    (x : Traced σ ε α) (start : σ) :
    ((x.mapFault f).inside start fault' : Traced τ η (α × σ)) = (x.inside start fault).mapFault g := by
  funext t
  unfold inside mapFault
  obtain ⟨result, s, events⟩ := x start
  cases result with
  | ok a => rfl
  | error e => simp only [Except.mapError, h]

end Traced

/-! ## Analysis -/

namespace Analysis

open Traced

theorem define_unplaced (symbol : Symbol) (line : Nat) :
    define symbol 0 = (define symbol line).mapFault SemanticError.unplaced := by
  funext scopes
  by_cases htaken : (scopes.current.get? symbol.name).isSome = true
  · simp only [mapFault_apply, define, Scopes.define, if_pos htaken]
    rfl
  · simp only [mapFault_apply, define, Scopes.define, if_neg htaken]
    rfl

theorem mapFault_lookup (name : String) : (lookup name).mapFault SemanticError.unplaced = lookup name := rfl

theorem resolveType_unplaced (type : TypeSpec) :
    resolveType ⟨type.name, 0⟩ = (resolveType type).mapFault SemanticError.unplaced := by
  unfold resolveType
  rw [mapFault_bind, mapFault_lookup]
  -- what is found is the same, and the line is only copied into the fault
  refine bind_congr fun found => ?_
  cases found.bind Symbol.type? <;> rfl

theorem resolveVariable_unplaced (name : String) (line : Nat) :
    resolveVariable name 0 = (resolveVariable name line).mapFault SemanticError.unplaced := by
  unfold resolveVariable
  rw [mapFault_bind, mapFault_lookup]
  refine bind_congr fun found => ?_
  rcases found with _ | ⟨_ | _ | _⟩ <;> rfl

theorem checkExpr_unplaced : ∀ e : Expr, checkExpr e.unplaced = (checkExpr e).mapFault SemanticError.unplaced
  | .literal _ _ => rfl
  | .variable name line => resolveVariable_unplaced name line
  | .unary _ operand _ => checkExpr_unplaced operand
  | .binary _ left right _ => by
    rw [Expr.unplaced, checkExpr, checkExpr, mapFault_bind, checkExpr_unplaced left, checkExpr_unplaced right]

mutual

theorem checkStatement_unplaced : ∀ s : Statement,
    checkStatement s.unplaced = (checkStatement s).mapFault SemanticError.unplaced
  | .compound children => by
    rw [Statement.unplaced, checkStatement, checkStatement, checkStatements_unplaced children]
  | .assign target line value _ => by
    rw [Statement.unplaced, checkStatement, checkStatement, mapFault_bind, resolveVariable_unplaced target line,
      checkExpr_unplaced value]
  | .skip => by
    rw [Statement.unplaced, checkStatement, mapFault_pure]

theorem checkStatements_unplaced : ∀ ss : List Statement,
    checkStatements (Statement.allUnplaced ss) = (checkStatements ss).mapFault SemanticError.unplaced
  | [] => by
    rw [Statement.allUnplaced, checkStatements, mapFault_pure]
  | first :: others => by
    rw [Statement.allUnplaced, checkStatements, checkStatements, mapFault_bind, checkStatement_unplaced first,
      checkStatements_unplaced others]

end

theorem declareVariable_unplaced (declared : TypedName) :
    declareVariable declared.unplaced = (declareVariable declared).mapFault SemanticError.unplaced := by
  unfold declareVariable
  rw [mapFault_bind, ← resolveType_unplaced]
  exact bind_congr fun type => define_unplaced _ _

/-- A resolved parameter without its line. -/
def unplacedParameter (resolved : VariableSymbol × Nat) : VariableSymbol × Nat := (resolved.1, 0)

theorem resolveParameters_unplaced : ∀ ps : List TypedName,
    resolveParameters (ps.map TypedName.unplaced) =
      List.map unplacedParameter <$> (resolveParameters ps).mapFault SemanticError.unplaced
  | [] => rfl
  | first :: others => by
    rw [List.map_cons, resolveParameters, resolveParameters, mapFault_bind, map_bind, resolveParameters_unplaced others]
    refine (congrArg (· >>= _) (resolveType_unplaced first.type)).trans (bind_congr fun type => ?_)
    rw [mapFault_map, Functor.map_map, Functor.map_map]
    rfl

theorem declareParameters_unplaced : ∀ resolved : List (VariableSymbol × Nat),
    declareParameters (resolved.map unplacedParameter) =
      (declareParameters resolved).mapFault SemanticError.unplaced
  | [] => rfl
  | (symbol, line) :: others => by
    rw [List.map_cons, unplacedParameter, declareParameters, declareParameters, mapFault_bind, ← define_unplaced,
      declareParameters_unplaced others]

theorem inScope_mapFault {α : Type} (name : String) (walk : Analysis α) :
    inScope name (walk.mapFault SemanticError.unplaced) = (inScope name walk).mapFault SemanticError.unplaced := by
  unfold inScope
  rw [mapFault_bind]
  refine congrArg _ (funext fun _ => ?_)
  rw [mapFault_bind]
  rfl

mutual

theorem checkDeclaration_unplaced : ∀ d : Declaration,
    checkDeclaration d.unplaced = (checkDeclaration d).mapFault SemanticError.unplaced
  | .variable declared => by
    rw [Declaration.unplaced, checkDeclaration, checkDeclaration, declareVariable_unplaced]
  | .procedure name parameters ⟨declarations, body⟩ line => by
    rw [Declaration.unplaced, Block.unplaced, checkDeclaration, checkDeclaration, mapFault_bind,
      resolveParameters_unplaced, bind_map_left]
    refine bind_congr fun resolved => ?_
    -- only the lines of the parameters are different, and a procedure's symbol does not keep them
    have hsymbols : (resolved.map unplacedParameter).map Prod.fst = resolved.map Prod.fst := by
      rw [List.map_map]
      rfl
    rw [hsymbols, mapFault_bind, ← define_unplaced _ line, ← inScope_mapFault, mapFault_bind, mapFault_bind,
      declareParameters_unplaced, checkDeclarations_unplaced declarations, checkStatements_unplaced body]

theorem checkDeclarations_unplaced : ∀ ds : List Declaration,
    checkDeclarations (Declaration.allUnplaced ds) = (checkDeclarations ds).mapFault SemanticError.unplaced
  | [] => by
    rw [Declaration.allUnplaced, checkDeclarations, mapFault_pure]
  | first :: others => by
    rw [Declaration.allUnplaced, checkDeclarations, checkDeclarations, mapFault_bind, checkDeclaration_unplaced first,
      checkDeclarations_unplaced others]

end

theorem checkBlock_unplaced (b : Block) :
    checkBlock b.unplaced = (checkBlock b).mapFault SemanticError.unplaced := by
  obtain ⟨declarations, body⟩ := b
  rw [Block.unplaced, checkBlock, checkBlock, mapFault_bind, checkDeclarations_unplaced, checkStatements_unplaced]

/-- The walk over a program does not look at places. -/
theorem checkProgram_unplaced (p : Program) :
    checkProgram p.unplaced = (checkProgram p).mapFault SemanticError.unplaced := by
  unfold checkProgram
  rw [mapFault_bind, mapFault_emit]
  refine bind_congr fun _ => ?_
  rw [mapFault_bind, ← checkBlock_unplaced]
  rfl

end Analysis

/-! ## Evaluation -/

namespace Arithmetic

theorem checked_unplaced (n : Int) (line : Nat) : checked n 0 = (checked n line).mapError RuntimeError.unplaced := by
  unfold checked
  cases Integer.ofInt? n <;> rfl

theorem onReals_unplaced (op : BinaryOperator) (x y : Double) (line : Nat) :
    onReals op x y 0 = (onReals op x y line).mapError RuntimeError.unplaced := by
  cases op with
  | add | subtract | multiply => rfl
  | quotient | divide =>
    simp only [onReals]
    split <;> rfl

theorem onIntegers_unplaced (op : BinaryOperator) (n m : Integer) (line : Nat) :
    onIntegers op n m 0 = (onIntegers op n m line).mapError RuntimeError.unplaced := by
  cases op with
  | add | subtract | multiply => exact checked_unplaced _ line
  | divide => exact onReals_unplaced .divide (Double.ofInt n.toInt) (Double.ofInt m.toInt) line
  | quotient =>
    simp only [onIntegers]
    split
    · rfl
    · exact checked_unplaced _ line

end Arithmetic

theorem BinaryOperator.apply_unplaced (op : BinaryOperator) (left right : Value) (line : Nat) :
    op.apply left right 0 = (op.apply left right line).mapError RuntimeError.unplaced := by
  cases left <;> cases right
  case integer.integer n m => exact Arithmetic.onIntegers_unplaced op n m line
  all_goals exact Arithmetic.onReals_unplaced op _ _ line

theorem UnaryOperator.apply_unplaced (op : UnaryOperator) (value : Value) (line : Nat) :
    op.apply value 0 = (op.apply value line).mapError RuntimeError.unplaced := by
  cases op with
  | plus => rfl
  | minus =>
    cases value with
    | integer n => exact Arithmetic.checked_unplaced _ line
    | real x => rfl

namespace Context

theorem read_unplaced (context : Context) (name : String) (line : Nat) :
    context.read name 0 = (context.read name line).mapError RuntimeError.unplaced := by
  unfold read
  cases context.store.get? name with
  | some value => rfl
  | none =>
    dsimp only
    split <;> rfl

theorem eval_unplaced (context : Context) : ∀ e : Expr,
    context.eval e.unplaced = (context.eval e).mapError RuntimeError.unplaced
  | .literal _ _ => rfl
  | .variable name line => context.read_unplaced name line
  | .unary op operand line => by
    rw [Expr.unplaced, eval, eval, context.eval_unplaced operand]
    cases context.eval operand with
    | error e => rfl
    | ok value => exact op.apply_unplaced value line
  | .binary op left right line => by
    rw [Expr.unplaced, eval, eval, context.eval_unplaced left, context.eval_unplaced right]
    cases context.eval left with
    | error e => rfl
    | ok a =>
      cases context.eval right with
      | error e => rfl
      | ok b => exact op.apply_unplaced a b line

end Context

namespace Evaluation

open Traced

theorem assign_unplaced (target : String) (value : Expr) :
    assign target value.unplaced = (assign target value).mapFault RuntimeError.unplaced := by
  funext context
  cases h : context.eval value with
  | ok v =>
    simp only [mapFault_apply, assign, context.eval_unplaced, h]
    rfl
  | error e =>
    simp only [mapFault_apply, assign, context.eval_unplaced, h]
    rfl

mutual

theorem runStatement_unplaced : ∀ s : Statement,
    runStatement s.unplaced = (runStatement s).mapFault RuntimeError.unplaced
  | .compound children => by
    rw [Statement.unplaced, runStatement, runStatement, runStatements_unplaced children]
  | .assign target _ value _ => by
    rw [Statement.unplaced, runStatement, runStatement, mapFault_map, assign_unplaced]
  | .skip => by
    rw [Statement.unplaced, runStatement, mapFault_pure]

theorem runStatements_unplaced : ∀ ss : List Statement,
    runStatements (Statement.allUnplaced ss) = (runStatements ss).mapFault RuntimeError.unplaced
  | [] => by
    rw [Statement.allUnplaced, runStatements, mapFault_pure]
  | first :: others => by
    rw [Statement.allUnplaced, runStatements, runStatements, mapFault_bind, runStatement_unplaced first,
      runStatements_unplaced others]
    exact bind_congr fun earlier => (mapFault_map _ _ _).symm

end

theorem introduce_unplaced : ∀ d : Declaration,
    introduce d.unplaced = (introduce d).mapFault RuntimeError.unplaced
  | .variable declared => by
    rw [Declaration.unplaced]
    rfl
  | .procedure name parameters block line => by
    rw [Declaration.unplaced]
    rfl

theorem introduceAll_unplaced : ∀ ds : List Declaration,
    introduceAll (Declaration.allUnplaced ds) = (introduceAll ds).mapFault RuntimeError.unplaced
  | [] => by
    rw [Declaration.allUnplaced, introduceAll, mapFault_pure]
  | first :: others => by
    rw [Declaration.allUnplaced, introduceAll, introduceAll, mapFault_bind, introduce_unplaced,
      introduceAll_unplaced others]

theorem runBlock_unplaced (b : Block) : runBlock b.unplaced = (runBlock b).mapFault RuntimeError.unplaced := by
  obtain ⟨declarations, body⟩ := b
  rw [Block.unplaced, runBlock, runBlock, mapFault_bind, introduceAll_unplaced, runStatements_unplaced]

/-- The execution of a program does not look at places. -/
theorem runProgram_unplaced (p : Program) :
    runProgram p.unplaced = (runProgram p).mapFault RuntimeError.unplaced := by
  rw [runProgram, runProgram, mapFault_bind, mapFault_emit, ← runBlock_unplaced]
  rfl

end Evaluation

/-! ## Runs -/

namespace Interpreter

open Traced

theorem readTokens_of_tokenize {source : String} {tokens : List Lexeme} (h : tokenize source = .ok tokens) :
    readTokens source = pure tokens := by
  rw [readTokens, h]
  rfl

theorem program_of_tokenize {source : String} {tokens : List Lexeme} (h : tokenize source = .ok tokens) :
    program source = programOf tokens := by
  rw [program, readTokens_of_tokenize h, pure_bind]

theorem expression_of_tokenize {source : String} {tokens : List Lexeme} (h : tokenize source = .ok tokens) :
    expression source = expressionOf tokens := by
  rw [expression, readTokens_of_tokenize h, pure_bind]

theorem inside_semantic {σ α : Type} (x : Traced σ SemanticError α) (start : σ) :
    ((x.mapFault SemanticError.unplaced).inside start Fault.semantic : Run (α × σ)) =
      (x.inside start Fault.semantic).mapFault Fault.unplaced := by
  apply inside_mapFault
  intro e
  rfl

theorem inside_runtime {σ α : Type} (x : Traced σ RuntimeError α) (start : σ) :
    ((x.mapFault RuntimeError.unplaced).inside start Fault.runtime : Run (α × σ)) =
      (x.inside start Fault.runtime).mapFault Fault.unplaced := by
  apply inside_mapFault
  intro e
  rfl

/-- Reading a tree without places, when what is done with a tree does not look at places. -/
theorem ofExcept_bind_unplaced {α β : Type} {strip : α → α} (parsed : Except SyntaxError α) {next : α → Run β}
    (hnext : ∀ a, next (strip a) = (next a).mapFault Fault.unplaced) :
    (ofExcept (((parsed.map strip).mapError SyntaxError.unplaced).mapError Fault.syntactic) >>= next : Run β) =
      (ofExcept (parsed.mapError Fault.syntactic) >>= next).mapFault Fault.unplaced := by
  rw [mapFault_bind]
  cases parsed with
  | error e => rfl
  | ok a => exact (pure_bind _ _).trans ((hnext a).trans (pure_bind _ _).symm)

theorem length_declarations_unplaced (b : Block) : b.unplaced.declarations.length = b.declarations.length := by
  obtain ⟨declarations, body⟩ := b
  rw [Block.unplaced]
  show (Declaration.allUnplaced declarations).length = declarations.length
  rw [Declaration.allUnplaced_eq_map, List.length_map]

theorem programOf_unplaced (tokens : List Lexeme) :
    programOf (tokens.map Lexeme.unplaced) = (programOf tokens).mapFault Fault.unplaced := by
  rw [programOf, programOf, mapFault_bind, mapFault_emit, List.length_map, parseProgram_unplaced]
  refine bind_congr fun _ => ofExcept_bind_unplaced _ fun tree => ?_
  have hparsed : Event.parsed tree.unplaced.name tree.unplaced.block.declarations.length =
      .parsed tree.name tree.block.declarations.length :=
    congrArg (Event.parsed tree.name) (length_declarations_unplaced tree.block)
  rw [hparsed, mapFault_bind, mapFault_emit, Analysis.checkProgram_unplaced, Evaluation.runProgram_unplaced,
    inside_semantic, inside_runtime]
  refine bind_congr fun _ => ?_
  rw [mapFault_bind]
  refine bind_congr fun _ => ?_
  rw [mapFault_bind]
  rfl

theorem expressionOf_unplaced (tokens : List Lexeme) :
    expressionOf (tokens.map Lexeme.unplaced) = (expressionOf tokens).mapFault Fault.unplaced := by
  rw [expressionOf, expressionOf, parseExpression_unplaced]
  refine ofExcept_bind_unplaced _ fun tree => ?_
  rw [mapFault_bind, Analysis.checkExpr_unplaced, inside_semantic, Context.eval_unplaced]
  refine bind_congr fun _ => ?_
  rw [mapFault_ofExcept]
  cases (Context.ofStore .empty).eval tree <;> rfl

end Interpreter

/-- **Layout does not matter**: from texts with the same tokens in the same order the same trees are parsed, up to
lines, or the same fault, up to its line and column; and a run of either text has the same outcome, or it ends with the
same fault up to its place. -/
theorem run_of_same_tokens (source other : String) (tokens tokens' : List Lexeme)
    (h : tokenize source = .ok tokens) (h' : tokenize other = .ok tokens')
    (hsame : tokens.map Lexeme.token = tokens'.map Lexeme.token) :
    ((parseProgram tokens).map Program.unplaced).mapError SyntaxError.unplaced =
        ((parseProgram tokens').map Program.unplaced).mapError SyntaxError.unplaced ∧
      ((parseExpression tokens).map Expr.unplaced).mapError SyntaxError.unplaced =
        ((parseExpression tokens').map Expr.unplaced).mapError SyntaxError.unplaced ∧
      (runProgram source).mapError Fault.unplaced = (runProgram other).mapError Fault.unplaced ∧
      (evaluateExpression source).mapError Fault.unplaced = (evaluateExpression other).mapError Fault.unplaced := by
  have hbare := map_unplaced_eq hsame
  refine ⟨?_, ?_, ?_, ?_⟩
  · rw [← parseProgram_unplaced, ← parseProgram_unplaced, hbare]
  · rw [← parseExpression_unplaced, ← parseExpression_unplaced, hbare]
  · have hrun := Interpreter.programOf_unplaced tokens
    rw [hbare, Interpreter.programOf_unplaced] at hrun
    rw [runProgram, runProgram, Interpreter.program_of_tokenize h, Interpreter.program_of_tokenize h']
    exact congrArg (fun run : Interpreter.Run Report => (run ()).result) hrun.symm
  · have hrun := Interpreter.expressionOf_unplaced tokens
    rw [hbare, Interpreter.expressionOf_unplaced] at hrun
    rw [evaluateExpression, evaluateExpression, Interpreter.expression_of_tokenize h,
      Interpreter.expression_of_tokenize h']
    exact congrArg (fun run : Interpreter.Run Value => (run ()).result) hrun.symm

/-- A program on one line and on many, with a comment: it fails at the same name, on another line. -/
theorem run_of_same_tokens_lines :
    let source := "program p; var x: integer; begin x := y end."
    let other := "program P;VAR x:integer;\x7b x \x7d\nbegin\n  x :=\n    y\nend."
    let tokens := (tokenize source).toOption.getD []
    let tokens' := (tokenize other).toOption.getD []
    (tokenize source = .ok tokens ∧ tokenize other = .ok tokens' ∧
        tokens.map Lexeme.token = tokens'.map Lexeme.token) ∧
      (runProgram source).mapError Fault.unplaced = (runProgram other).mapError Fault.unplaced ∧
      runProgram source = .error (.semantic (.undeclaredIdentifier "y" 1)) ∧
      runProgram other = .error (.semantic (.undeclaredIdentifier "y" 4)) := by
  intro source other tokens tokens'
  have htokens : tokenize source = .ok tokens := by decide +kernel
  have htokens' : tokenize other = .ok tokens' := by decide +kernel
  have hsame : tokens.map Lexeme.token = tokens'.map Lexeme.token := by decide +kernel
  have hsource : runProgram source = .error (.semantic (.undeclaredIdentifier "y" 1)) := by decide +kernel
  have hother : runProgram other = .error (.semantic (.undeclaredIdentifier "y" 4)) := by decide +kernel
  have hrun := (run_of_same_tokens source other tokens tokens' htokens htokens' hsame).2.2.1
  exact ⟨⟨htokens, htokens', hsame⟩, hrun, hsource, hother⟩

end MiniPascal
