import MiniPascal.Proofs.Soundness
import MiniPascal.Proofs.Syntax.Failure
import MiniPascal.Proofs.Syntax.Places
import MiniPascal.Proofs.Token.Composition

/-!
# What a fault is blamed on

A fault that is found behind the lexer names a line, and a token of the text stands there that the fault is about. For a
fault of parsing this is the token that the parser stopped at; for the others the line was copied from a node of the
tree, which is placed on its token (`Placed`).

* `fault_fits_token`.
-/

namespace MiniPascal

/-! ## Fitting tokens -/

def RuntimeError.line : RuntimeError → Nat
  | unknownVariable _ line => line
  | unassignedVariable _ line => line
  | divisionByZero line => line
  | overflow line => line

def Fault.line : Fault → Nat
  | lexical e => e.line
  | syntactic e => e.line
  | semantic e => e.line
  | runtime e => e.line

/-- One of the tokens has the line, the column and the description of the error. -/
def SyntaxError.Fits (ts : List Lexeme) (e : SyntaxError) : Prop := ∃ t ∈ ts, e.Blames (some t)

/-- A name is blamed on itself, but a procedure declared twice on the word before its name. -/
def SemanticError.Fits (ts : List Lexeme) : SemanticError → Prop
  | duplicateIdentifier name _ line => StandsOn ts line (.identifier name) ∨ HeadingOn ts line name
  | unknownType name line => ∃ type : TypeName, type.text = name ∧ StandsOn ts line type.token
  | undeclaredIdentifier name line => StandsOn ts line (.identifier name)
  | notAVariable name line => StandsOn ts line (.identifier name)

/-- A read is blamed on its name, an operation on its operator. -/
def RuntimeError.Fits (ts : List Lexeme) : RuntimeError → Prop
  | unknownVariable name line => StandsOn ts line (.identifier name)
  | unassignedVariable name line => StandsOn ts line (.identifier name)
  | divisionByZero line => ∃ token ∈ [.keyword .div, .mark .slash], StandsOn ts line token
  | overflow line => ∃ token ∈ [.mark .plus, .mark .minus, .mark .star, .keyword .div], StandsOn ts line token

/-- The fault was found behind the lexer, and a token that it is about stands on its line. -/
def Fault.Fits (ts : List Lexeme) : Fault → Prop
  | lexical _ => False
  | syntactic e => e.Fits ts
  | semantic e => e.Fits ts
  | runtime e => e.Fits ts

/-- Whatever the fault is, its line is that of a token. -/
theorem Fault.Fits.exists_line {ts : List Lexeme} {fault : Fault} (h : fault.Fits ts) :
    ∃ t ∈ ts, t.line = fault.line := by
  have hstands : ∀ {line : Nat} {token : Token}, StandsOn ts line token → ∃ t ∈ ts, t.line = line :=
    fun ⟨t, ht, _, hline⟩ => ⟨t, ht, hline⟩
  cases fault with
  | lexical e => exact h.elim
  | syntactic e =>
    obtain ⟨t, ht, hline, -⟩ := h
    exact ⟨t, ht, hline.symm⟩
  | semantic e =>
    cases e with
    | duplicateIdentifier name scope line =>
      rcases h with h | ⟨t, t', hpair, -, hline, -⟩
      · exact hstands h
      · exact ⟨t, hpair.subset List.mem_cons_self, hline⟩
    | unknownType name line =>
      obtain ⟨type, -, h⟩ := h
      exact hstands h
    | undeclaredIdentifier name line => exact hstands h
    | notAVariable name line => exact hstands h
  | runtime e =>
    cases e with
    | unknownVariable name line => exact hstands h
    | unassignedVariable name line => exact hstands h
    | divisionByZero line =>
      obtain ⟨token, -, h⟩ := h
      exact hstands h
    | overflow line =>
      obtain ⟨token, -, h⟩ := h
      exact hstands h

/-! ## Parsing -/

/-- Words do not contain the end of input, so a rule that fails leaves it, or a token before it. -/
theorem Parser.fits_of_toEnd_eq_error {α : Type} {rule : (ts : List Lexeme) → Parser.Reply α ts.length}
    {Of : List Lexeme → α → Prop}
    (htracks : ∀ {r r'}, peek r = peek r' → ∀ u, Tracks r r' (rule (u ++ r)) (rule (u ++ r')))
    (hsound : ∀ {ts rest a}, (rule ts).Reads a rest → ∃ w, ts = w ++ rest ∧ Of w a)
    (hstuck : ∀ {ts rest expected}, (rule ts).Fails expected rest → Stuck Of ts rest)
    (hend : ∀ {w a}, Of w a → EndFree w) {ts : List Lexeme} {stop : Lexeme} (hstop : stop.token = .endOfInput)
    {err : SyntaxError} (h : (rule (ts ++ [stop])).toEnd = .error err) : err.Fits (ts ++ [stop]) := by
  obtain ⟨⟨u, v, a, hsplit, hword⟩, hblames⟩ := stuck_of_toEnd_eq_error htracks hsound hstuck h
  -- were nothing left, the end of input would be inside a word
  generalize (rule (ts ++ [stop])).rest = rest at hsplit hblames
  cases rest with
  | nil =>
    rw [List.append_nil] at hsplit
    have hmem : stop ∈ u ++ v := List.mem_append_left v (hsplit ▸ List.mem_append_right ts (List.mem_singleton_self _))
    exact absurd hstop (hend hword stop hmem)
  | cons t tail =>
    refine ⟨t, ?_, hblames⟩
    rw [hsplit]
    exact List.mem_append_right u List.mem_cons_self

theorem fits_of_parseProgram {source : String} {tokens : List Lexeme} (htokens : tokenize source = .ok tokens)
    {err : SyntaxError} (h : parseProgram tokens = .error err) : err.Fits tokens := by
  obtain ⟨ts, last, stop, -, -, hstop, rfl⟩ := exists_yields_of_tokenize htokens
  exact Parser.fits_of_toEnd_eq_error Parser.tracks_program Parser.exists_programOf Parser.stuck_program
    Grammar.endFree_programOf hstop h

theorem fits_of_parseExpression {source : String} {tokens : List Lexeme} (htokens : tokenize source = .ok tokens)
    {err : SyntaxError} (h : parseExpression tokens = .error err) : err.Fits tokens := by
  obtain ⟨ts, last, stop, -, -, hstop, rfl⟩ := exists_yields_of_tokenize htokens
  exact Parser.fits_of_toEnd_eq_error Parser.tracks_expression Parser.exists_expressionOf Parser.stuck_expression
    Grammar.endFree_expressionOf hstop h

/-! ## Computations -/

/-- Every fault of the computation has the property, wherever it starts. -/
def Traced.FailsWith {σ ε α : Type} (P : ε → Prop) (x : Traced σ ε α) : Prop :=
  ∀ s e, (x s).result = .error e → P e

namespace Traced

variable {σ ε α β : Type} {P : ε → Prop}

theorem failsWith_pure (a : α) : (pure a : Traced σ ε α).FailsWith P := by
  intro s e h
  cases h

/-- The second part is known to start from a result of the first. -/
theorem FailsWith.bind {x : Traced σ ε α} {f : α → Traced σ ε β} (hx : x.FailsWith P)
    (hf : ∀ s a, (x s).result = .ok a → (f a).FailsWith P) : (x >>= f).FailsWith P := by
  intro s e h
  rcases result_bind_eq_error.mp h with h | ⟨a, ha, h⟩
  · exact hx s e h
  · exact hf s a ha _ e h

theorem FailsWith.map {x : Traced σ ε α} (hx : x.FailsWith P) (f : α → β) : (f <$> x).FailsWith P := by
  intro s e h
  rw [map_apply] at h
  cases hresult : (x s).result with
  | ok a => rw [hresult] at h; cases h
  | error e' =>
    rw [hresult] at h
    cases h
    exact hx s e hresult

end Traced

/-! ## Analysis -/

namespace Analysis

open Traced

variable {ts : List Lexeme}

theorem failsWith_define {symbol : Symbol} {line : Nat}
    (h : StandsOn ts line (.identifier symbol.name) ∨ HeadingOn ts line symbol.name) :
    (define symbol line).FailsWith (SemanticError.Fits ts) := by
  intro scopes e he
  rw [result_define] at he
  split at he
  · cases he
    exact h
  · cases he

theorem failsWith_resolveType {type : TypeSpec} (h : StandsOn ts type.line type.name.token) :
    (resolveType type).FailsWith (SemanticError.Fits ts) := by
  intro scopes e he
  rw [result_resolveType] at he
  split at he
  · cases he
  · cases he
    exact ⟨type.name, rfl, h⟩

theorem failsWith_resolveVariable {name : String} {line : Nat} (h : StandsOn ts line (.identifier name)) :
    (resolveVariable name line).FailsWith (SemanticError.Fits ts) := by
  intro scopes e he
  rw [result_resolveVariable] at he
  split at he
  · cases he
  · cases he
    exact h
  · cases he
    exact h

theorem failsWith_checkExpr : ∀ {e : Expr}, e.Placed ts → (checkExpr e).FailsWith (SemanticError.Fits ts)
  | .literal _ _, _ => failsWith_pure ()
  | .variable _ _, h => failsWith_resolveVariable h
  | .unary _ operand _, h => failsWith_checkExpr (e := operand) h.2
  | .binary _ left right _, h =>
    (failsWith_checkExpr (e := left) h.2.1).bind fun _ _ _ => failsWith_checkExpr (e := right) h.2.2

mutual

theorem failsWith_checkStatement : ∀ {s : Statement}, s.Placed ts →
    (checkStatement s).FailsWith (SemanticError.Fits ts)
  | .compound children, h => by
    rw [Statement.Placed] at h
    rw [checkStatement]
    exact failsWith_checkStatements h
  | .assign _ _ _ _, h => by
    rw [Statement.Placed] at h
    rw [checkStatement]
    exact (failsWith_resolveVariable h.1).bind fun _ _ _ => failsWith_checkExpr h.2.2
  | .skip, _ => by
    rw [checkStatement]
    exact failsWith_pure ()

theorem failsWith_checkStatements : ∀ {ss : List Statement}, Statement.AllPlaced ts ss →
    (checkStatements ss).FailsWith (SemanticError.Fits ts)
  | [], _ => by
    rw [checkStatements]
    exact failsWith_pure ()
  | first :: others, h => by
    rw [Statement.AllPlaced] at h
    rw [checkStatements]
    exact (failsWith_checkStatement h.1).bind fun _ _ _ => failsWith_checkStatements h.2

end

theorem failsWith_declareVariable {declared : TypedName} (h : declared.Placed ts) :
    (declareVariable declared).FailsWith (SemanticError.Fits ts) :=
  (failsWith_resolveType h.type).bind fun _ _ _ => failsWith_define (.inl h.name)

theorem failsWith_resolveParameters : ∀ {ps : List TypedName}, (∀ p ∈ ps, p.Placed ts) →
    (resolveParameters ps).FailsWith (SemanticError.Fits ts)
  | [], _ => failsWith_pure []
  | _ :: _, h => by
    obtain ⟨hfirst, hothers⟩ := List.forall_mem_cons.mp h
    exact (failsWith_resolveType hfirst.type).bind fun _ _ _ => (failsWith_resolveParameters hothers).map _

theorem failsWith_declareParameters : ∀ {ps : List TypedName}, (∀ p ∈ ps, p.Placed ts) →
    (declareParameters (ps.map fun p => (p.symbol, p.line))).FailsWith (SemanticError.Fits ts)
  | [], _ => failsWith_pure ()
  | _ :: _, h => by
    obtain ⟨hfirst, hothers⟩ := List.forall_mem_cons.mp h
    exact (failsWith_define (.inl hfirst.name)).bind fun _ _ _ => failsWith_declareParameters hothers

theorem failsWith_inScope {α : Type} {walk : Analysis α} (h : walk.FailsWith (SemanticError.Fits ts)) (name : String) :
    (inScope name walk).FailsWith (SemanticError.Fits ts) := by
  intro scopes e he
  rw [result_inScope] at he
  exact h _ e he

mutual

theorem failsWith_checkDeclaration : ∀ {d : Declaration}, d.Placed ts →
    (checkDeclaration d).FailsWith (SemanticError.Fits ts)
  | .variable declared, h => by
    rw [Declaration.Placed] at h
    rw [checkDeclaration]
    exact failsWith_declareVariable h
  | .procedure name parameters ⟨declarations, body⟩ line, h => by
    rw [Declaration.Placed, Block.Placed] at h
    obtain ⟨hheading, hparameters, hdeclarations, hbody⟩ := h
    rw [checkDeclaration]
    refine (failsWith_resolveParameters hparameters).bind fun scopes resolved hresolved => ?_
    refine (failsWith_define (.inr hheading)).bind fun _ _ _ => failsWith_inScope ?_ name
    -- parameters keep the lines of their names when they are resolved
    rw [eq_symbols_of_resolveParameters hresolved]
    refine (failsWith_declareParameters hparameters).bind fun _ _ _ => ?_
    exact (failsWith_checkDeclarations hdeclarations).bind fun _ _ _ => failsWith_checkStatements hbody

theorem failsWith_checkDeclarations : ∀ {ds : List Declaration}, Declaration.AllPlaced ts ds →
    (checkDeclarations ds).FailsWith (SemanticError.Fits ts)
  | [], _ => by
    rw [checkDeclarations]
    exact failsWith_pure ()
  | first :: others, h => by
    rw [Declaration.AllPlaced] at h
    rw [checkDeclarations]
    exact (failsWith_checkDeclaration h.1).bind fun _ _ _ => failsWith_checkDeclarations h.2

end

theorem failsWith_checkProgram {p : Program} (h : p.Placed ts) :
    (checkProgram p).FailsWith (SemanticError.Fits ts) := by
  intro scopes e he
  rw [result_checkProgram] at he
  have hblock := h.block
  generalize p.block = block at he hblock
  obtain ⟨declarations, body⟩ := block
  rw [Block.Placed] at hblock
  have hwalk : (checkBlock ⟨declarations, body⟩).FailsWith (SemanticError.Fits ts) :=
    (failsWith_checkDeclarations hblock.1).bind fun _ _ _ => failsWith_checkStatements hblock.2
  exact hwalk scopes e he

end Analysis

/-! ## Evaluation -/

namespace Arithmetic

variable {ts : List Lexeme} {op : BinaryOperator} {line : Nat} {e : RuntimeError}

/-- Operations on reals fail only under a division. -/
theorem fits_of_onReals {x y : Double} (hop : StandsOn ts line op.token) (h : onReals op x y line = .error e) :
    e.Fits ts := by
  obtain rfl := onReals_eq_error h
  cases op with
  | add | subtract | multiply => cases h
  | quotient => exact ⟨_, by decide, hop⟩
  | divide => exact ⟨_, by decide, hop⟩

theorem fits_of_onIntegers {n m : Integer} (hop : StandsOn ts line op.token) (h : onIntegers op n m line = .error e) :
    e.Fits ts := by
  cases op with
  | add | subtract | multiply =>
    obtain rfl := checked_eq_error h
    exact ⟨_, by decide, hop⟩
  | quotient =>
    rcases onIntegers_eq_error h with rfl | rfl
    · exact ⟨_, by decide, hop⟩
    · exact ⟨_, by decide, hop⟩
  | divide => exact fits_of_onReals hop h

end Arithmetic

section

variable {ts : List Lexeme} {line : Nat} {err : RuntimeError}

theorem BinaryOperator.fits_of_apply {op : BinaryOperator} {a b : Value} (hop : StandsOn ts line op.token)
    (h : op.apply a b line = .error err) : err.Fits ts := by
  unfold BinaryOperator.apply at h
  split at h
  · exact Arithmetic.fits_of_onIntegers hop h
  · exact Arithmetic.fits_of_onReals hop h

theorem UnaryOperator.fits_of_apply {op : UnaryOperator} {a : Value} (hop : StandsOn ts line op.token)
    (h : op.apply a line = .error err) : err.Fits ts := by
  unfold UnaryOperator.apply at h
  split at h
  · cases h
  · obtain rfl := Arithmetic.checked_eq_error h
    exact ⟨_, by decide, hop⟩
  · cases h

theorem Context.fits_of_eval {context : Context} : ∀ {e : Expr}, e.Placed ts → context.eval e = .error err →
    err.Fits ts
  | .literal _ _, _, h => by cases h
  | .variable name line, hplaced, h => by
    obtain rfl := eq_missing_of_read h
    unfold missing
    split
    · exact hplaced
    · exact hplaced
  | .unary op operand line, hplaced, h => by
    unfold eval at h
    cases hoperand : context.eval operand with
    | error e =>
      rw [hoperand] at h
      cases h
      exact fits_of_eval (e := operand) hplaced.2 hoperand
    | ok value =>
      rw [hoperand] at h
      exact op.fits_of_apply hplaced.1 h
  | .binary op left right line, hplaced, h => by
    unfold eval at h
    cases hleft : context.eval left with
    | error e =>
      rw [hleft] at h
      cases h
      exact fits_of_eval (e := left) hplaced.2.1 hleft
    | ok a =>
      rw [hleft] at h
      cases hright : context.eval right with
      | error e =>
        rw [hright] at h
        cases h
        exact fits_of_eval (e := right) hplaced.2.2 hright
      | ok b =>
        rw [hright] at h
        exact op.fits_of_apply hplaced.1 h

end

namespace Evaluation

open Traced

variable {ts : List Lexeme}

theorem failsWith_assign {target : String} {value : Expr} (h : value.Placed ts) :
    (assign target value).FailsWith (RuntimeError.Fits ts) := by
  intro context e he
  cases hvalue : context.eval value with
  | ok v => simp only [assign, hvalue] at he; cases he
  | error err =>
    simp only [assign, hvalue] at he
    cases he
    exact Context.fits_of_eval h hvalue

mutual

theorem failsWith_runStatement : ∀ {s : Statement}, s.Placed ts → (runStatement s).FailsWith (RuntimeError.Fits ts)
  | .compound children, h => by
    rw [Statement.Placed] at h
    rw [runStatement]
    exact failsWith_runStatements h
  | .assign _ _ _ _, h => by
    rw [Statement.Placed] at h
    rw [runStatement]
    exact (failsWith_assign h.2.2).map _
  | .skip, _ => by
    rw [runStatement]
    exact failsWith_pure none

theorem failsWith_runStatements : ∀ {ss : List Statement}, Statement.AllPlaced ts ss →
    (runStatements ss).FailsWith (RuntimeError.Fits ts)
  | [], _ => by
    rw [runStatements]
    exact failsWith_pure none
  | first :: others, h => by
    rw [Statement.AllPlaced] at h
    rw [runStatements]
    exact (failsWith_runStatement h.1).bind fun _ _ _ => (failsWith_runStatements h.2).map _

end

theorem failsWith_runProgram {p : Program} (h : p.Placed ts) : (runProgram p).FailsWith (RuntimeError.Fits ts) := by
  intro context e he
  rw [result_runProgram] at he
  have hblock := h.block
  generalize p.block = block at he hblock
  obtain ⟨declarations, body⟩ := block
  rw [Block.Placed] at hblock
  exact failsWith_runStatements hblock.2 _ e he

end Evaluation

/-! ## Runs -/

theorem fits_of_runProgram {source : String} {tokens : List Lexeme} (htokens : tokenize source = .ok tokens)
    {fault : Fault} (h : runProgram source = .error fault) : fault.Fits tokens := by
  rcases runProgram_cases source with ⟨e, hlexed, -⟩ | ⟨tokens', e, hlexed, hparsed, h'⟩ |
    ⟨tokens', tree, e, hlexed, hparsed, hchecked, h'⟩ | ⟨tokens', tree, hlexed, hparsed, -, h'⟩
  · cases htokens.symm.trans hlexed
  · cases htokens.symm.trans hlexed
    cases h.symm.trans h'
    exact fits_of_parseProgram htokens hparsed
  · cases htokens.symm.trans hlexed
    cases h.symm.trans h'
    exact Analysis.failsWith_checkProgram (placed_of_parseProgram hparsed) _ e hchecked
  · cases htokens.symm.trans hlexed
    rw [h] at h'
    cases hrun : (Evaluation.runProgram tree (.ofStore .empty)).result with
    | ok result => rw [hrun] at h'; cases h'
    | error e =>
      rw [hrun] at h'
      cases h'
      exact Evaluation.failsWith_runProgram (placed_of_parseProgram hparsed) _ e hrun

theorem fits_of_evaluateExpression {source : String} {tokens : List Lexeme} (htokens : tokenize source = .ok tokens)
    {fault : Fault} (h : evaluateExpression source = .error fault) : fault.Fits tokens := by
  rcases evaluateExpression_cases source with ⟨e, hlexed, -⟩ | ⟨tokens', e, hlexed, hparsed, h'⟩ |
    ⟨tokens', tree, e, hlexed, hparsed, hchecked, h'⟩ | ⟨tokens', tree, hlexed, hparsed, -, h'⟩
  · cases htokens.symm.trans hlexed
  · cases htokens.symm.trans hlexed
    cases h.symm.trans h'
    exact fits_of_parseExpression htokens hparsed
  · cases htokens.symm.trans hlexed
    cases h.symm.trans h'
    exact Analysis.failsWith_checkExpr (placed_of_parseExpression hparsed) _ e hchecked
  · cases htokens.symm.trans hlexed
    rw [h] at h'
    cases hvalue : (Context.ofStore .empty).eval tree with
    | ok value => rw [hvalue] at h'; cases h'
    | error e =>
      rw [hvalue] at h'
      cases h'
      exact Context.fits_of_eval (placed_of_parseExpression hparsed) hvalue

/-- **Every fault blames a token of the text**: whatever stage behind the lexer finds it, a token that it is about
stands on its line, which is therefore never line 0. -/
theorem fault_fits_token (source : String) (tokens : List Lexeme) (fault : Fault)
    (htokens : tokenize source = .ok tokens)
    (h : runProgram source = .error fault ∨ evaluateExpression source = .error fault) :
    fault.Fits tokens ∧ 1 ≤ fault.line := by
  have hfits : fault.Fits tokens := by
    rcases h with h | h
    · exact fits_of_runProgram htokens h
    · exact fits_of_evaluateExpression htokens h
  obtain ⟨t, ht, hline⟩ := hfits.exists_line
  exact ⟨hfits, hline ▸ (line_of_tokenize htokens t ht).1⟩

/-- A procedure that is declared twice, its name on the line behind the word `procedure`; a sum that overflows on the
second line; and a text that ends too early, on its second line. -/
theorem fault_fits_token_lines :
    let twice := "program p;\nprocedure q; begin end;\nprocedure\nq; begin end;\nbegin end."
    let sum := "9223372036854775807\n+ 1"
    let short := "1 +\n"
    let tokens := fun source : String => (tokenize source).toOption.getD []
    (runProgram twice = .error (.semantic (.duplicateIdentifier "q" "global" 3)) ∧ HeadingOn (tokens twice) 3 "q") ∧
      (evaluateExpression sum = .error (.runtime (.overflow 2)) ∧ RuntimeError.Fits (tokens sum) (.overflow 2)) ∧
      evaluateExpression short = .error (.syntactic (.unexpectedToken .expression .endOfInput 2 1)) ∧
      SyntaxError.Fits (tokens short) (.unexpectedToken .expression .endOfInput 2 1) := by
  intro twice sum short tokens
  have htwice : runProgram twice = .error (.semantic (.duplicateIdentifier "q" "global" 3)) := by decide +kernel
  have hsum : evaluateExpression sum = .error (.runtime (.overflow 2)) := by decide +kernel
  have hshort : evaluateExpression short = .error (.syntactic (.unexpectedToken .expression .endOfInput 2 1)) := by
    decide +kernel
  have hname : ¬ StandsOn (tokens twice) 3 (.identifier "q") := by
    unfold StandsOn
    decide +kernel
  refine ⟨⟨htwice, ?_⟩, ⟨hsum, ?_⟩, hshort, ?_⟩
  · exact (fault_fits_token twice (tokens twice) _ (by decide +kernel) (.inl htwice)).1.resolve_left hname
  · exact (fault_fits_token sum (tokens sum) _ (by decide +kernel) (.inr hsum)).1
  · exact (fault_fits_token short (tokens short) _ (by decide +kernel) (.inr hshort)).1

end MiniPascal
