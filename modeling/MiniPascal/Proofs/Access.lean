import MiniPascal.Evaluation
import MiniPascal.Proofs.Analysis.Scopes

/-!
# Reads and writes

The variables that a statement reads and writes, in the order in which it does so. Analysis and evaluation both walk the
tree on their own; this list is what they agree on.

* `Analysis.result_checkStatements_eq_ok`: a body is sound when everything it reads or writes is a visible variable.
* `Evaluation.result_runStatements_eq_error`: a body fails at an operation, or at a name that it reads.
-/

namespace MiniPascal

inductive Access where
  | read (name : String) (line : Nat)
  | write (name : String)

def Access.name : Access → String
  | read name _ => name
  | write name => name

def Expr.accesses : Expr → List Access
  | .literal _ _ => []
  | .variable name line => [.read name line]
  | .unary _ operand _ => operand.accesses
  | .binary _ left right _ => left.accesses ++ right.accesses

mutual

/-- A value is read before its target is written. -/
def Statement.accesses : Statement → List Access
  | .compound children => Statement.allAccesses children
  | .assign target _ value _ => value.accesses ++ [.write target]
  | .skip => []

def Statement.allAccesses : List Statement → List Access
  | [] => []
  | first :: others => first.accesses ++ Statement.allAccesses others

end

/-! ## Accesses of a sound body -/

/-- The name is visible as a variable. -/
def Scopes.IsVariable (scopes : Scopes) (name : String) : Prop :=
  ∃ declared, scopes.lookup name = some (.variable declared)

namespace Analysis

theorem result_resolveVariable_eq_ok {name : String} {line : Nat} {scopes : Scopes} :
    (resolveVariable name line scopes).result = .ok () ↔ scopes.IsVariable name := by
  rw [result_resolveVariable, Scopes.IsVariable]
  rcases scopes.lookup name with _ | ⟨_ | _ | _⟩ <;> simp

/-- Two walks that change nothing succeed one after the other when each succeeds on its own. -/
theorem Preserves.result_bind_eq_ok {x y : Analysis Unit} (hx : Preserves x) {scopes : Scopes} :
    ((x >>= fun _ => y) scopes).result = .ok () ↔ (x scopes).result = .ok () ∧ (y scopes).result = .ok () := by
  rw [Traced.result_bind_eq_ok, hx]
  exact ⟨fun ⟨_, h, h'⟩ => ⟨h, h'⟩, fun ⟨h, h'⟩ => ⟨(), h, h'⟩⟩

theorem result_checkExpr_eq_ok {scopes : Scopes} : ∀ {e : Expr},
    (checkExpr e scopes).result = .ok () ↔ ∀ a ∈ e.accesses, scopes.IsVariable a.name
  | .literal _ _ => by simp [checkExpr, Expr.accesses]
  | .variable name line => by
    rw [checkExpr, result_resolveVariable_eq_ok]
    simp [Expr.accesses, Access.name]
  | .unary _ operand _ => by
    rw [checkExpr, result_checkExpr_eq_ok, Expr.accesses]
  | .binary _ left right _ => by
    rw [checkExpr, (preserves_checkExpr left).result_bind_eq_ok, result_checkExpr_eq_ok, result_checkExpr_eq_ok,
      Expr.accesses, List.forall_mem_append]

/-- Analysis starts with types only, so an expression that is sound there reads nothing. -/
theorem accesses_of_checkExpr_start {e : Expr} (h : (checkExpr e start).result = .ok ()) : e.accesses = [] := by
  rw [List.eq_nil_iff_forall_not_mem]
  intro a ha
  obtain ⟨v, hv⟩ := result_checkExpr_eq_ok.mp h a ha
  have hmem := Scopes.mem_symbols_of_lookup rfl hv
  simp [symbols_start] at hmem

mutual

theorem result_checkStatement_eq_ok {scopes : Scopes} : ∀ {s : Statement},
    (checkStatement s scopes).result = .ok () ↔ ∀ a ∈ s.accesses, scopes.IsVariable a.name
  | .compound children => by
    rw [checkStatement, result_checkStatements_eq_ok, Statement.accesses]
  | .assign target line value _ => by
    rw [checkStatement, (preserves_resolveVariable target line).result_bind_eq_ok, result_resolveVariable_eq_ok,
      result_checkExpr_eq_ok, Statement.accesses, List.forall_mem_append]
    simp [Access.name, and_comm]
  | .skip => by simp [checkStatement, Statement.accesses]

theorem result_checkStatements_eq_ok {scopes : Scopes} : ∀ {ss : List Statement},
    (checkStatements ss scopes).result = .ok () ↔ ∀ a ∈ Statement.allAccesses ss, scopes.IsVariable a.name
  | [] => by simp [checkStatements, Statement.allAccesses]
  | first :: others => by
    rw [checkStatements, (preserves_checkStatement first).result_bind_eq_ok, result_checkStatement_eq_ok,
      result_checkStatements_eq_ok, Statement.allAccesses, List.forall_mem_append]

end

end Analysis

/-! ## Faults of operations -/

/-- The faults that an operation on values can have. -/
def RuntimeError.IsArithmetic : RuntimeError → Prop
  | divisionByZero _ => True
  | overflow _ => True
  | _ => False

namespace Arithmetic

theorem checked_eq_error {n : Int} {line : Nat} {e : RuntimeError} (h : checked n line = .error e) :
    e = .overflow line := by
  unfold checked at h
  cases hn : Integer.ofInt? n with
  | some i => rw [hn] at h; cases h
  | none => rw [hn] at h; cases h; rfl

theorem onReals_eq_error {op : BinaryOperator} {x y : Double} {line : Nat} {e : RuntimeError}
    (h : onReals op x y line = .error e) : e = .divisionByZero line := by
  cases op with
  | add => cases h
  | subtract => cases h
  | multiply => cases h
  | quotient | divide =>
    simp only [onReals] at h
    split at h
    · cases h; rfl
    · cases h

theorem onIntegers_eq_error {op : BinaryOperator} {n m : Integer} {line : Nat} {e : RuntimeError}
    (h : onIntegers op n m line = .error e) : e = .divisionByZero line ∨ e = .overflow line := by
  cases op with
  | add => exact .inr (checked_eq_error h)
  | subtract => exact .inr (checked_eq_error h)
  | multiply => exact .inr (checked_eq_error h)
  | quotient =>
    simp only [onIntegers] at h
    split at h
    · cases h; exact .inl rfl
    · exact .inr (checked_eq_error h)
  | divide =>
    simp only [onIntegers] at h
    exact .inl (onReals_eq_error h)

end Arithmetic

/-- A fault of an operation has the line of the operation. -/
theorem BinaryOperator.apply_eq_error {op : BinaryOperator} {a b : Value} {line : Nat} {e : RuntimeError}
    (h : op.apply a b line = .error e) : e = .divisionByZero line ∨ e = .overflow line := by
  unfold BinaryOperator.apply at h
  split at h
  · exact Arithmetic.onIntegers_eq_error h
  · exact .inl (Arithmetic.onReals_eq_error h)

theorem UnaryOperator.apply_eq_error {op : UnaryOperator} {a : Value} {line : Nat} {e : RuntimeError}
    (h : op.apply a line = .error e) : e = .overflow line := by
  unfold UnaryOperator.apply at h
  split at h
  · cases h
  · exact Arithmetic.checked_eq_error h
  · cases h

theorem BinaryOperator.isArithmetic_of_apply {op : BinaryOperator} {a b : Value} {line : Nat} {e : RuntimeError}
    (h : op.apply a b line = .error e) : e.IsArithmetic := by
  rcases apply_eq_error h with rfl | rfl <;> trivial

theorem UnaryOperator.isArithmetic_of_apply {op : UnaryOperator} {a : Value} {line : Nat} {e : RuntimeError}
    (h : op.apply a line = .error e) : e.IsArithmetic := by
  rw [apply_eq_error h]
  trivial

/-! ## Faults of a body -/

namespace Context

/-- The fault of reading a name that holds no value. -/
def missing (context : Context) (name : String) (line : Nat) : RuntimeError :=
  if name ∈ context.declared then .unassignedVariable name line else .unknownVariable name line

theorem eq_missing_of_read {context : Context} {name : String} {line : Nat} {e : RuntimeError}
    (h : context.read name line = .error e) : e = context.missing name line := by
  unfold read at h
  unfold missing
  cases hget : context.store.get? name with
  | some value => rw [hget] at h; cases h
  | none =>
    rw [hget] at h
    dsimp only at h
    split at h
    next hmem => cases h; rw [if_pos hmem]
    next hmem => cases h; rw [if_neg hmem]

/-- The fault is that of an operation or of one of the reads. -/
def IsFaultOf (context : Context) (accesses : List Access) (e : RuntimeError) : Prop :=
  e.IsArithmetic ∨ ∃ name line, .read name line ∈ accesses ∧ e = context.missing name line

theorem IsFaultOf.mono {context : Context} {accesses others : List Access} {e : RuntimeError}
    (h : context.IsFaultOf accesses e) (hsub : accesses ⊆ others) : context.IsFaultOf others e :=
  h.imp_right fun ⟨name, line, hread, he⟩ => ⟨name, line, hsub hread, he⟩

/-- Which faults are possible depends on the context only through the declared names. -/
theorem IsFaultOf.congr {context context' : Context} {accesses : List Access} {e : RuntimeError}
    (h : context.IsFaultOf accesses e) (hdeclared : context.declared = context'.declared) :
    context'.IsFaultOf accesses e := by
  unfold IsFaultOf missing at h ⊢
  rwa [hdeclared] at h

theorem eval_eq_error {context : Context} {err : RuntimeError} : ∀ {e : Expr}, context.eval e = .error err →
    context.IsFaultOf e.accesses err
  | .literal _ _, h => by cases h
  | .variable name line, h => .inr ⟨name, line, List.mem_singleton_self _, eq_missing_of_read h⟩
  | .unary op operand line, h => by
    unfold eval at h
    cases hoperand : context.eval operand with
    | error e =>
      rw [hoperand] at h
      cases h
      exact eval_eq_error (e := operand) hoperand
    | ok value =>
      rw [hoperand] at h
      exact .inl (UnaryOperator.isArithmetic_of_apply h)
  | .binary op left right line, h => by
    unfold eval at h
    cases hleft : context.eval left with
    | error e =>
      rw [hleft] at h
      cases h
      exact (eval_eq_error hleft).mono (List.subset_append_left _ _)
    | ok a =>
      rw [hleft] at h
      cases hright : context.eval right with
      | error e =>
        rw [hright] at h
        cases h
        exact (eval_eq_error hright).mono (List.subset_append_right _ _)
      | ok b =>
        rw [hright] at h
        exact .inl (BinaryOperator.isArithmetic_of_apply h)

/-- A value depends on the context only through the names that are read. -/
theorem eval_congr {context context' : Context} : ∀ {e : Expr},
    (∀ name line, .read name line ∈ e.accesses → context.read name line = context'.read name line) →
      context.eval e = context'.eval e
  | .literal _ _, _ => rfl
  | .variable name line, h => h name line (List.mem_singleton_self _)
  | .unary op operand line, h => by
    rw [eval, eval, eval_congr (e := operand) h]
  | .binary op left right line, h => by
    have hleft := eval_congr (e := left) fun name line hread => h name line (List.mem_append_left _ hread)
    have hright := eval_congr (e := right) fun name line hread => h name line (List.mem_append_right _ hread)
    rw [eval, eval, hleft, hright]

end Context

namespace Evaluation

theorem declared_assign (target : String) (value : Expr) (context : Context) :
    (assign target value context).state.declared = context.declared := by
  unfold assign
  cases context.eval value <;> rfl

mutual

/-- A statement declares nothing. -/
theorem declared_runStatement : ∀ (s : Statement) (context : Context),
    (runStatement s context).state.declared = context.declared
  | .compound children, context => declared_runStatements children context
  | .assign target _ value _, context => declared_assign target value context
  | .skip, _ => rfl

theorem declared_runStatements : ∀ (ss : List Statement) (context : Context),
    (runStatements ss context).state.declared = context.declared
  | [], _ => rfl
  | first :: others, context => by
    rw [runStatements]
    cases h : (runStatement first context).result with
    | error e => rw [Traced.state_bind_of_error _ h, declared_runStatement]
    | ok earlier => rw [Traced.state_bind_of_ok _ h, Traced.map_apply, declared_runStatements, declared_runStatement]

end

mutual

theorem result_runStatement_eq_error : ∀ {s : Statement} {context : Context} {e : RuntimeError},
    (runStatement s context).result = .error e → context.IsFaultOf s.accesses e
  | .compound _, _, _, h => by
    rw [runStatement] at h
    rw [Statement.accesses]
    exact result_runStatements_eq_error h
  | .assign target _ value _, context, e, h => by
    rw [runStatement, Traced.map_apply, assign] at h
    cases hvalue : context.eval value with
    | ok v => rw [hvalue] at h; cases h
    | error err =>
      rw [hvalue] at h
      cases h
      exact (Context.eval_eq_error hvalue).mono (List.subset_append_left _ _)
  | .skip, _, _, h => by cases h

theorem result_runStatements_eq_error : ∀ {ss : List Statement} {context : Context} {e : RuntimeError},
    (runStatements ss context).result = .error e → context.IsFaultOf (Statement.allAccesses ss) e
  | [], _, _, h => by cases h
  | first :: others, context, e, h => by
    rw [runStatements, Traced.result_bind_eq_error] at h
    rcases h with hfirst | ⟨earlier, -, hothers⟩
    · exact (result_runStatement_eq_error hfirst).mono (List.subset_append_left _ _)
    · rw [Traced.map_apply] at hothers
      cases hresult : (runStatements others (runStatement first context).state).result with
      | ok later => rw [hresult] at hothers; cases hothers
      | error err =>
        rw [hresult] at hothers
        cases hothers
        -- the rest of the body runs in a later context, where the same names are declared
        have hfault := (result_runStatements_eq_error hresult).congr (declared_runStatement first context)
        exact hfault.mono (List.subset_append_right _ _)

end

end Evaluation

end MiniPascal
