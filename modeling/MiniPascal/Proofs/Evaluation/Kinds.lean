import Mathlib.Logic.Function.Basic
import MiniPascal.Proofs.Evaluation.Assignments
import MiniPascal.Proofs.Evaluation.Integers

/-!
# Kinds of values

Whether a value is an integer or a real can be told before anything is computed. An expression stays among the integers
if each of its parts does: a real constant, a variable that holds a real, or a `/` makes it real (`Expr.kindIn`). The
kinds of the variables follow from this by one pass over the assignments (`Prediction.step`), in which no declaration is
looked at.

* `Context.kind_eval`: the kind of an expression, if it has a value.
* `Evaluation.kinds_predicted`: the kinds of variables and result behind a statement and behind a block.
-/

namespace MiniPascal

/-! ## The static pass -/

inductive Value.Kind where
  | integer
  | real
  deriving DecidableEq, Repr

def Value.kind : Value → Value.Kind
  | integer _ => .integer
  | real _ => .real

theorem Value.kind_integer (n : Integer) : (Value.integer n).kind = .integer := rfl

theorem Value.kind_real (x : Double) : (Value.real x).kind = .real := rfl

/-- The kinds of the variables that hold a value. -/
abbrev Kinds := String → Option Value.Kind

namespace Expr

/-- The part is no real constant, no variable that is not an integer, and no `/`. -/
def IsIntegerPart (kinds : Kinds) : Expr → Prop
  | .literal value _ => value.kind = .integer
  | .variable name _ => kinds name = some .integer
  | .unary _ _ _ => True
  | .binary op _ _ _ => op ≠ .divide

instance (kinds : Kinds) : DecidablePred (IsIntegerPart kinds)
  | .literal value _ => inferInstanceAs (Decidable (value.kind = .integer))
  | .variable name _ => inferInstanceAs (Decidable (kinds name = some .integer))
  | .unary _ _ _ => inferInstanceAs (Decidable True)
  | .binary op _ _ _ => inferInstanceAs (Decidable (op ≠ .divide))

def kindIn (kinds : Kinds) (e : Expr) : Value.Kind :=
  if ∀ part ∈ e.postOrder, part.IsIntegerPart kinds then .integer else .real

end Expr

/-- The kinds of the variables at one point of a run, and that of the value assigned last. -/
structure Prediction where
  kinds : Kinds
  last : Option Value.Kind

/-- A target takes on the kind of the value, whatever it was before. -/
def Prediction.step (p : Prediction) (a : Assignment) : Prediction :=
  ⟨Function.update p.kinds a.target (some (a.value.kindIn p.kinds)), some (a.value.kindIn p.kinds)⟩

def predict (kinds : Kinds) (as : List Assignment) : Prediction := as.foldl Prediction.step ⟨kinds, none⟩

def Store.kinds (store : Store) : Kinds := fun name => (store.get? name).map Value.kind

/-! ## Operations -/

namespace Arithmetic

theorem kind_checked {n : Int} {line : Nat} {value : Value} (h : checked n line = .ok value) :
    value.kind = .integer := by
  unfold checked at h
  split at h
  · cases h
    rfl
  · cases h

theorem kind_onReals {op : BinaryOperator} {x y : Double} {line : Nat} {value : Value}
    (h : onReals op x y line = .ok value) : value.kind = .real := by
  cases op with
  | add => cases h; rfl
  | subtract => cases h; rfl
  | multiply => cases h; rfl
  | quotient =>
    simp only [onReals] at h
    split at h
    · cases h
    · cases h; rfl
  | divide =>
    simp only [onReals] at h
    split at h
    · cases h
    · cases h; rfl

/-- Only `/` leaves the integers. -/
theorem kind_onIntegers {op : BinaryOperator} {n m : Integer} {line : Nat} {value : Value}
    (h : onIntegers op n m line = .ok value) : value.kind = .integer ↔ op ≠ .divide := by
  cases op with
  | add => exact iff_of_true (kind_checked h) (by decide)
  | subtract => exact iff_of_true (kind_checked h) (by decide)
  | multiply => exact iff_of_true (kind_checked h) (by decide)
  | quotient =>
    simp only [onIntegers] at h
    split at h
    · cases h
    · exact iff_of_true (kind_checked h) (by decide)
  | divide =>
    have hreal : value.kind = .real := @kind_onReals .divide _ _ _ _ h
    simp [hreal]

end Arithmetic

/-- A sign keeps the kind. -/
theorem UnaryOperator.kind_apply {op : UnaryOperator} {a value : Value} {line : Nat} (h : op.apply a line = .ok value) :
    value.kind = a.kind := by
  cases op with
  | plus => cases h; rfl
  | minus =>
    cases a with
    | integer n => exact Arithmetic.kind_checked h
    | real x => cases h; rfl

/-- An operation stays among the integers if both operands do, unless it is `/`. -/
theorem BinaryOperator.kind_apply {op : BinaryOperator} {a b value : Value} {line : Nat}
    (h : op.apply a b line = .ok value) :
    value.kind = .integer ↔ a.kind = .integer ∧ b.kind = .integer ∧ op ≠ .divide := by
  cases a with
  | real x =>
    have hreal : value.kind = .real := @Arithmetic.kind_onReals op x b.toReal line _ h
    simp [hreal, Value.kind_real]
  | integer n =>
    cases b with
    | real y =>
      have hreal : value.kind = .real := @Arithmetic.kind_onReals op _ y line _ h
      simp [hreal, Value.kind_real]
    | integer m => simpa [Value.kind_integer] using @Arithmetic.kind_onIntegers op n m line _ h

/-! ## Expressions -/

namespace Context

theorem read_eq_ok {context : Context} {name : String} {line : Nat} {value : Value} :
    context.read name line = .ok value ↔ context.store.get? name = some value := by
  unfold read
  split
  next held => simp [held]
  next hnone =>
    rw [hnone]
    split <;> simp

theorem eval_unary_eq_ok {context : Context} {op : UnaryOperator} {operand : Expr} {line : Nat} {value : Value} :
    context.eval (.unary op operand line) = .ok value ↔
      ∃ a, context.eval operand = .ok a ∧ op.apply a line = .ok value := by
  rw [eval]
  cases context.eval operand <;> simp [bind, Except.bind]

theorem eval_binary_eq_ok {context : Context} {op : BinaryOperator} {left right : Expr} {line : Nat} {value : Value} :
    context.eval (.binary op left right line) = .ok value ↔
      ∃ a b, context.eval left = .ok a ∧ context.eval right = .ok b ∧ op.apply a b line = .ok value := by
  rw [eval]
  cases context.eval left with
  | error e => simp [bind, Except.bind]
  | ok a => cases context.eval right <;> simp [bind, Except.bind]

/-- An expression that has a value is an integer exactly if all its parts are. -/
theorem kind_eval_eq_integer {context : Context} : ∀ {e : Expr} {value : Value}, context.eval e = .ok value →
    (value.kind = .integer ↔ ∀ part ∈ e.postOrder, part.IsIntegerPart context.store.kinds)
  | .literal _ _, _, h => by
    cases h
    rw [Expr.postOrder, List.forall_mem_singleton, Expr.IsIntegerPart]
  | .variable _ _, _, h => by
    rw [Expr.postOrder, List.forall_mem_singleton, Expr.IsIntegerPart, Store.kinds, read_eq_ok.mp h]
    simp
  | .unary _ _ _, _, h => by
    obtain ⟨a, ha, happly⟩ := eval_unary_eq_ok.mp h
    rw [Expr.postOrder, List.forall_mem_append, List.forall_mem_singleton, UnaryOperator.kind_apply happly,
      kind_eval_eq_integer ha, Expr.IsIntegerPart, and_true]
  | .binary _ _ _ _, _, h => by
    obtain ⟨a, b, ha, hb, happly⟩ := eval_binary_eq_ok.mp h
    rw [Expr.postOrder, List.forall_mem_append, List.forall_mem_append, List.forall_mem_singleton,
      BinaryOperator.kind_apply happly, kind_eval_eq_integer ha, kind_eval_eq_integer hb, Expr.IsIntegerPart, and_assoc]

theorem kind_eval {context : Context} {e : Expr} {value : Value} (h : context.eval e = .ok value) :
    value.kind = e.kindIn context.store.kinds := by
  have hkind := kind_eval_eq_integer h
  unfold Expr.kindIn
  split
  next hparts => exact hkind.mpr hparts
  next hparts =>
    cases value with
    | integer n => exact absurd (hkind.mp rfl) hparts
    | real x => rfl

/-- Declarations do not matter to an expression that has a value. -/
theorem eval_of_store_eq {context context' : Context} (hstore : context'.store = context.store) :
    ∀ {e : Expr} {value : Value}, context.eval e = .ok value → context'.eval e = .ok value
  | .literal _ _, _, h => h
  | .variable _ _, _, h => by
    rw [eval, read_eq_ok, hstore]
    exact read_eq_ok.mp h
  | .unary _ _ _, _, h => by
    obtain ⟨a, ha, happly⟩ := eval_unary_eq_ok.mp h
    exact eval_unary_eq_ok.mpr ⟨a, eval_of_store_eq hstore ha, happly⟩
  | .binary _ _ _ _, _, h => by
    obtain ⟨a, b, ha, hb, happly⟩ := eval_binary_eq_ok.mp h
    exact eval_binary_eq_ok.mpr ⟨a, b, eval_of_store_eq hstore ha, eval_of_store_eq hstore hb, happly⟩

end Context

/-! ## Runs -/

theorem Store.kinds_assign (store : Store) (name : String) (value : Value) :
    (store.assign name value).kinds = Function.update store.kinds name (some value.kind) := by
  funext other
  rw [kinds, get?_assign, Function.update_apply]
  split <;> rfl

namespace Context.Executes

variable {context final : Context} {as : List Assignment} {made : List (String × Value)}

/-- One step of the pass keeps in step with one assignment, hence the whole pass with the run. -/
theorem foldl_step (h : context.Executes as made final) (last : Option Value) :
    as.foldl Prediction.step ⟨context.store.kinds, last.map Value.kind⟩ =
      ⟨final.store.kinds, ((made.getLast?.map Prod.snd).or last).map Value.kind⟩ := by
  induction h generalizing last with
  | nil context => rfl
  | @cons context final a others value made hvalue _ ih =>
    have hstep : Prediction.step ⟨context.store.kinds, last.map Value.kind⟩ a =
        ⟨(context.assign a.target value).store.kinds, (some value).map Value.kind⟩ := by
      rw [Prediction.step, ← kind_eval hvalue, ← Store.kinds_assign]
      rfl
    rw [List.foldl_cons, hstep, ih (some value), Evaluation.getLast?_report_cons (a.target, value) made,
      List.getLast?_cons]
    rfl

theorem predict_eq (h : context.Executes as made final) :
    predict context.store.kinds as = ⟨final.store.kinds, (made.getLast?.map Prod.snd).map Value.kind⟩ := by
  have hfold := h.foldl_step none
  rwa [Option.or_none] at hfold

theorem of_store_eq (h : context.Executes as made final) {context' : Context}
    (hstore : context'.store = context.store) :
    ∃ final', context'.Executes as made final' ∧ final'.store = final.store := by
  induction h generalizing context' with
  | nil context => exact ⟨context', .nil context', hstore⟩
  | @cons context final a others value made hvalue _ ih =>
    obtain ⟨final', hfinal, heq⟩ := @ih (context'.assign a.target value) (congrArg (·.assign a.target value) hstore)
    exact ⟨final', .cons (eval_of_store_eq hstore hvalue) hfinal, heq⟩

end Context.Executes

namespace Evaluation

theorem exists_executes_of_runAssignments {as : List Assignment} {context : Context} {result : Option Value}
    (h : (runAssignments as context).result = .ok result) :
    ∃ made, context.Executes as made (runAssignments as context).state ∧ result = made.getLast?.map Prod.snd := by
  obtain ⟨made, hmade, hlast, -⟩ := runAssignments_eq_ok.mp (by rw [← h])
  exact ⟨made, hmade, hlast⟩

/-- A successful run of a list leaves the kinds that the pass over it predicts. -/
theorem predict_of_runAssignments {as : List Assignment} {context : Context} {result : Option Value}
    (h : (runAssignments as context).result = .ok result) :
    predict context.store.kinds as = ⟨(runAssignments as context).state.store.kinds, result.map Value.kind⟩ := by
  obtain ⟨made, hmade, rfl⟩ := exists_executes_of_runAssignments h
  exact hmade.predict_eq

/-- A body that succeeds does the same behind any other declarations. -/
theorem runBlock_of_declarations {block : Block} {context : Context} {result : Option Value}
    (h : (runBlock block context).result = .ok result) (declarations : List Declaration) :
    (runBlock ⟨declarations, block.body⟩ context).result = .ok result ∧
      (runBlock ⟨declarations, block.body⟩ context).state.store = (runBlock block context).state.store := by
  rw [runBlock_apply] at h ⊢
  obtain ⟨made, hmade, rfl⟩ := exists_executes_of_runAssignments h
  let others : Block := ⟨declarations, block.body⟩
  obtain ⟨final, hfinal, hstore⟩ := @hmade.of_store_eq _ _ _ _ (others.variableNames.foldl Context.declare context)
    (by rw [Context.store_foldl_declare, Context.store_foldl_declare])
  have hrun : runAssignments others.assignments (others.variableNames.foldl Context.declare context) = _ :=
    runAssignments_of_executes hfinal
  rw [runBlock_apply, hrun]
  exact ⟨rfl, hstore⟩

/-- **Kinds are decided statically.** Behind a statement or a block that succeeds, each variable and the result are of
the kind that is predicted from the kinds before it and the flat list of assignments. Declarations are not consulted:
with any others in front of it, the body of a block does the same. -/
theorem kinds_predicted (context : Context) (result : Option Value) :
    (∀ s : Statement, (runStatement s context).result = .ok result →
      let predicted := predict context.store.kinds s.assignments
      (∀ name, ((runStatement s context).state.store.get? name).map Value.kind = predicted.kinds name) ∧
        result.map Value.kind = predicted.last) ∧
    ∀ block : Block, (runBlock block context).result = .ok result →
      let predicted := predict context.store.kinds block.assignments
      (∀ name, ((runBlock block context).state.store.get? name).map Value.kind = predicted.kinds name) ∧
        result.map Value.kind = predicted.last ∧
        ∀ declarations, (runBlock ⟨declarations, block.body⟩ context).result = .ok result ∧
          (runBlock ⟨declarations, block.body⟩ context).state.store = (runBlock block context).state.store := by
  refine ⟨fun s h => ?_, fun block h => ?_⟩
  · rw [runStatement_eq] at h ⊢
    rw [predict_of_runAssignments h]
    exact ⟨fun _ => rfl, rfl⟩
  · have hothers := runBlock_of_declarations h
    rw [runBlock_apply] at h hothers ⊢
    have hpredict := predict_of_runAssignments h
    rw [Context.store_foldl_declare] at hpredict
    rw [hpredict]
    exact ⟨fun _ => rfl, rfl, hothers⟩

/-- The declarations say the opposite of what the variables become: `a` is first given an integer and then the quotient
of two integers, and `b`, which held a real, is given an integer. -/
theorem kinds_predicted_misdeclared :
    let block : Block :=
      ⟨[.variable ⟨"a", ⟨.integer, 1⟩, 1⟩, .variable ⟨"b", ⟨.real, 1⟩, 1⟩],
        [.assign "a" 1 (.literal (.integer 7) 1) 1,
          .compound [.assign "b" 1 (.unary .minus (.variable "a" 1) 1) 1, .skip],
          .assign "a" 1 (.binary .divide (.variable "a" 1) (.variable "b" 1) 1) 1]⟩
    let context : Context := .ofStore (Store.empty.assign "b" (.real (.ofMagnitude false 0)))
    ∃ result, (runBlock block context).result = .ok result ∧ result.map Value.kind = some .real ∧
      ((runBlock block context).state.store.get? "a").map Value.kind = some .real ∧
      ((runBlock block context).state.store.get? "b").map Value.kind = some .integer := by
  intro block context
  have hsucceeds : (runBlock block context).result.toOption.isSome = true := by decide +kernel
  cases hrun : (runBlock block context).result with
  | error e =>
    rw [hrun] at hsucceeds
    cases hsucceeds
  | ok result =>
    obtain ⟨hkinds, hlast, -⟩ := (kinds_predicted context result).2 block hrun
    refine ⟨result, rfl, ?_, ?_, ?_⟩
    · rw [hlast]
      decide
    · rw [hkinds]
      decide
    · rw [hkinds]
      decide

end Evaluation

end MiniPascal
