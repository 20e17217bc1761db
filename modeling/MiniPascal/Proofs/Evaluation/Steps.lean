import Mathlib.Data.List.Induction
import MiniPascal.Proofs.Evaluation.Assignments
import MiniPascal.Proofs.Soundness

/-!
# Reading before assigning

An evaluation as a list of single steps on a stack of values (`Step`): constants and reads put a value on it, operations
take their operands from it, and an assignment takes the value of its variable. The list is known before the run, and so
is the first read that no assignment to its name precedes (`Step.FirstUnassigned`). A sound program fails there, unless
an operation among the steps before it fails first (`Machine.Raises`); with no such read, only operations fail.

* `Machine.execute_assignments`: a run of the steps is the run of the assignments.
* `runProgram_of_reads`: the faults of a sound program, read off its steps.
-/

namespace MiniPascal

/-! ## Steps -/

inductive Step where
  | constant (value : Value)
  | read (name : String) (line : Nat)
  | unary (op : UnaryOperator) (line : Nat)
  | binary (op : BinaryOperator) (line : Nat)
  | assign (target : String)
  deriving DecidableEq

/-- Operands from left to right, then the operation. -/
def Expr.steps : Expr → List Step
  | .literal value _ => [.constant value]
  | .variable name line => [.read name line]
  | .unary op operand line => operand.steps ++ [.unary op line]
  | .binary op left right line => left.steps ++ right.steps ++ [.binary op line]

def Assignment.steps (a : Assignment) : List Step := a.value.steps ++ [.assign a.target]

/-- The steps of the body, compounds being flattened. -/
def Block.steps (block : Block) : List Step := block.assignments.flatMap Assignment.steps

namespace Step

/-- The line of an operation. -/
def operationLine? : Step → Option Nat
  | unary _ line => some line
  | binary _ line => some line
  | _ => none

/-- Every read follows an assignment to the name it reads. -/
def AllAssigned (steps : List Step) : Prop :=
  ∀ before name line after, steps = before ++ .read name line :: after → .assign name ∈ before

/-- Behind the steps `before` comes a read of `name` on `line`, the first that follows no assignment to its name. -/
structure FirstUnassigned (steps before : List Step) (name : String) (line : Nat) : Prop where
  split : ∃ after, steps = before ++ .read name line :: after
  earlier : AllAssigned before
  unassigned : .assign name ∉ before

end Step

/-! ## Runs of steps -/

/-- A context and the values that are not used up yet, the latest one first. -/
structure Machine where
  context : Context
  stack : List Value

namespace Machine

def push (m : Machine) (value : Value) : Machine := { m with stack := value :: m.stack }

/-- The latest value. The steps of a tree find their operands; without one it would be zero. -/
def top (m : Machine) : Value := m.stack.headD (.integer 0)

def pop (m : Machine) : Machine := { m with stack := m.stack.tail }

def assign (m : Machine) (name : String) (value : Value) : Machine := { m with context := m.context.assign name value }

@[simp] theorem context_push (m : Machine) (value : Value) : (m.push value).context = m.context := rfl

@[simp] theorem context_pop (m : Machine) : m.pop.context = m.context := rfl

@[simp] theorem context_assign (m : Machine) (name : String) (value : Value) :
    (m.assign name value).context = m.context.assign name value := rfl

end Machine

def Step.run : Step → Machine → Except RuntimeError Machine
  | .constant value, m => .ok (m.push value)
  | .read name line, m => (m.context.read name line).map m.push
  | .unary op line, m => (op.apply m.top line).map m.pop.push
  | .binary op line, m => (op.apply m.pop.top m.top line).map m.pop.pop.push
  | .assign target, m => .ok (m.pop.assign target m.top)

namespace Machine

/-- Does one step after the other, up to the first fault. -/
def execute : List Step → Machine → Except RuntimeError Machine
  | [], m => .ok m
  | first :: others, m => first.run m >>= execute others

/-- One of the steps is an operation that fails, once the steps before it are done. -/
def Raises (m : Machine) (steps : List Step) (e : RuntimeError) : Prop :=
  ∃ earlier step later reached line, steps = earlier ++ step :: later ∧ step.operationLine? = some line ∧
    execute earlier m = .ok reached ∧ step.run reached = .error e ∧ (e = .divisionByZero line ∨ e = .overflow line)

theorem execute_append (steps more : List Step) (m : Machine) :
    execute (steps ++ more) m = execute steps m >>= execute more := by
  induction steps generalizing m with
  | nil => rfl
  | cons first others ih =>
    rw [List.cons_append, execute, execute]
    cases first.run m with
    | error e => rfl
    | ok next => exact ih next

theorem execute_singleton (step : Step) (m : Machine) : execute [step] m = step.run m := by
  rw [execute]
  cases step.run m <;> rfl

/-- The steps of an expression leave its value on the stack. -/
theorem execute_expr : ∀ (e : Expr) (m : Machine), execute e.steps m = (m.context.eval e).map m.push
  | .literal _ _, _ => rfl
  | .variable name line, m => by
    rw [Expr.steps, execute_singleton]
    rfl
  | .unary op operand line, m => by
    rw [Expr.steps, execute_append, execute_expr operand, Context.eval]
    cases m.context.eval operand with
    | error e => rfl
    | ok value => exact execute_singleton _ _
  | .binary op left right line, m => by
    rw [Expr.steps, execute_append, execute_append, execute_expr left, Context.eval]
    cases m.context.eval left with
    | error e => rfl
    | ok a =>
      change (execute right.steps (m.push a) >>= _) = _
      rw [execute_expr right, context_push]
      cases m.context.eval right with
      | error e => rfl
      | ok b => exact execute_singleton _ _

/-- The steps of assignments leave the context that the assignments leave, and nothing on the stack. -/
theorem execute_assignments (as : List Assignment) (m : Machine) :
    execute (as.flatMap Assignment.steps) m =
      (Evaluation.runAssignments as m.context).result.map fun _ =>
        { m with context := (Evaluation.runAssignments as m.context).state } := by
  induction as generalizing m with
  | nil => rfl
  | cons a others ih =>
    rw [List.flatMap_cons, Assignment.steps, execute_append, execute_append, execute_expr]
    cases hvalue : m.context.eval a.value with
    | error e =>
      rw [Evaluation.runAssignments_cons_of_error hvalue]
      rfl
    | ok value =>
      rw [Evaluation.runAssignments_cons_of_ok hvalue]
      change execute (others.flatMap Assignment.steps) (m.assign a.target value) = _
      rw [ih, context_assign]
      dsimp only
      cases (Evaluation.runAssignments others (m.context.assign a.target value)).result <;> rfl

/-- A run fails at one of its steps, the first that fails. -/
theorem execute_eq_error {steps : List Step} {m : Machine} {e : RuntimeError} (h : execute steps m = .error e) :
    ∃ earlier step later reached, steps = earlier ++ step :: later ∧ execute earlier m = .ok reached ∧
      step.run reached = .error e := by
  induction steps generalizing m with
  | nil => cases h
  | cons first others ih =>
    rw [execute] at h
    cases hfirst : first.run m with
    | error e' =>
      rw [hfirst] at h
      cases h
      exact ⟨[], first, others, m, rfl, rfl, hfirst⟩
    | ok next =>
      rw [hfirst] at h
      obtain ⟨earlier, step, later, reached, rfl, hearlier, hstep⟩ := ih h
      refine ⟨first :: earlier, step, later, reached, rfl, ?_, hstep⟩
      rw [execute, hfirst]
      exact hearlier

end Machine

/-! ## What steps do to the context -/

/-- The name holds a value. -/
def Context.Holds (context : Context) (name : String) : Prop := (context.store.get? name).isSome

theorem Context.holds_assign {context : Context} {name other : String} {value : Value} :
    (context.assign name value).Holds other ↔ other = name ∨ context.Holds other := by
  unfold Holds
  rw [assign, Store.get?_assign]
  split
  next h => simp [h]
  next h => simp [h]

theorem Step.context_of_run {step : Step} {m m' : Machine} (h : step.run m = .ok m') :
    m'.context.declared = m.context.declared ∧
      ∀ name, m'.context.Holds name ↔ step = .assign name ∨ m.context.Holds name := by
  have hkept {x : Except RuntimeError Value} {stacked : Machine} (hcontext : stacked.context = m.context)
      (hx : x.map stacked.push = .ok m') : m'.context = m.context := by
    cases x with
    | error e => cases hx
    | ok value =>
      cases hx
      exact hcontext
  cases step with
  | constant value =>
    cases h
    simp
  | read name line =>
    rw [hkept rfl h]
    simp
  | unary op line =>
    rw [hkept (Machine.context_pop m) h]
    simp
  | binary op line =>
    rw [hkept (Machine.context_pop m.pop) h]
    simp
  | assign target =>
    cases h
    refine ⟨rfl, fun name => ?_⟩
    rw [Machine.context_assign, Context.holds_assign, Machine.context_pop, Step.assign.injEq, eq_comm]

theorem Machine.context_of_execute {steps : List Step} {m m' : Machine} (h : execute steps m = .ok m') :
    m'.context.declared = m.context.declared ∧
      ∀ name, m'.context.Holds name ↔ .assign name ∈ steps ∨ m.context.Holds name := by
  induction steps generalizing m with
  | nil =>
    cases h
    simp
  | cons first others ih =>
    rw [execute] at h
    cases hfirst : first.run m with
    | error e => rw [hfirst] at h; cases h
    | ok next =>
      rw [hfirst] at h
      obtain ⟨hdeclared, hholds⟩ := first.context_of_run hfirst
      obtain ⟨hdeclared', hholds'⟩ := ih h
      refine ⟨hdeclared'.trans hdeclared, fun name => ?_⟩
      rw [hholds', hholds, List.mem_cons, eq_comm (a := Step.assign name), or_assoc, or_left_comm]

/-! ## Reads -/

theorem Context.read_of_holds {context : Context} {name : String} (h : context.Holds name) (line : Nat) :
    ∃ value, context.read name line = .ok value := by
  obtain ⟨value, hvalue⟩ := Option.isSome_iff_exists.mp h
  exact ⟨value, by rw [read, hvalue]⟩

theorem Context.read_of_not_holds {context : Context} {name : String} (h : ¬ context.Holds name)
    (hdeclared : name ∈ context.declared) (line : Nat) :
    context.read name line = .error (.unassignedVariable name line) := by
  rw [Holds, Option.not_isSome_iff_eq_none] at h
  rw [read, h]
  exact if_pos hdeclared

/-- A fault is that of an operation, or a read of a name that holds nothing. -/
theorem Step.run_eq_error {step : Step} {m : Machine} {e : RuntimeError} (h : step.run m = .error e) :
    (∃ line, step.operationLine? = some line ∧ (e = .divisionByZero line ∨ e = .overflow line)) ∨
      ∃ name line, step = .read name line ∧ ¬ m.context.Holds name := by
  have hfault {x : Except RuntimeError Value} {stacked : Machine} (hx : x.map stacked.push = .error e) :
      x = .error e := by
    cases x with
    | error _ => cases hx; rfl
    | ok _ => cases hx
  cases step with
  | constant value => cases h
  | read name line =>
    refine .inr ⟨name, line, rfl, fun hholds => ?_⟩
    obtain ⟨value, hvalue⟩ := Context.read_of_holds hholds line
    cases hvalue.symm.trans (hfault h)
  | unary op line => exact .inl ⟨line, rfl, .inr (UnaryOperator.apply_eq_error (hfault h))⟩
  | binary op line => exact .inl ⟨line, rfl, BinaryOperator.apply_eq_error (hfault h)⟩
  | assign target => cases h

/-- Where every read follows an assignment, only operations fail. -/
theorem Machine.raises_of_allAssigned {steps : List Step} (hassigned : Step.AllAssigned steps) {m : Machine}
    {e : RuntimeError} (h : execute steps m = .error e) : m.Raises steps e := by
  obtain ⟨earlier, step, later, reached, rfl, hearlier, hstep⟩ := execute_eq_error h
  rcases step.run_eq_error hstep with ⟨line, hline, he⟩ | ⟨name, line, rfl, hnone⟩
  · exact ⟨earlier, step, later, reached, line, rfl, hline, hearlier, hstep, he⟩
  · have hmem := hassigned earlier name line later rfl
    exact absurd (((context_of_execute hearlier).2 name).mpr (.inl hmem)) hnone

theorem Machine.Raises.isArithmetic {m : Machine} {steps : List Step} {e : RuntimeError} (h : m.Raises steps e) :
    e.IsArithmetic := by
  obtain ⟨_, _, _, _, _, -, -, -, -, rfl | rfl⟩ := h <;> trivial

theorem Step.allAssigned_nil : AllAssigned [] := fun _ _ _ _ hsplit => by simp at hsplit

theorem Step.allAssigned_concat {steps : List Step} {last : Step} :
    AllAssigned (steps ++ [last]) ↔
      AllAssigned steps ∧ ∀ name line, last = .read name line → .assign name ∈ steps := by
  constructor
  · intro h
    refine ⟨fun before name line after hsplit => ?_, fun name line hlast => ?_⟩
    · exact h before name line (after ++ [last]) (by rw [hsplit]; simp)
    · exact h steps name line [] (by rw [hlast])
  · rintro ⟨hsteps, hlast⟩ before name line after hsplit
    rcases List.eq_nil_or_concat after with rfl | ⟨after, step, rfl⟩
    · obtain ⟨rfl, heq⟩ := List.append_inj' hsplit rfl
      exact hlast name line (List.singleton_inj.mp heq)
    · rw [List.concat_eq_append, ← List.cons_append, ← List.append_assoc] at hsplit
      obtain ⟨rfl, -⟩ := List.append_inj' hsplit rfl
      exact hsteps before name line after rfl

/-- If there are reads without an assignment before them, one of them is the first. -/
theorem Step.exists_firstUnassigned {steps : List Step} (h : ¬ AllAssigned steps) :
    ∃ before name line, FirstUnassigned steps before name line := by
  induction steps using List.reverseRecOn with
  | nil => exact absurd allAssigned_nil h
  | append_singleton steps last ih =>
    by_cases hsteps : AllAssigned steps
    · rw [allAssigned_concat, not_and] at h
      obtain ⟨name, line, hlast⟩ : ∃ name line, ¬ (last = .read name line → .assign name ∈ steps) := by
        simpa only [Classical.not_forall] using h hsteps
      rw [Classical.not_imp] at hlast
      exact ⟨steps, name, line, ⟨[], by rw [hlast.1]⟩, hsteps, hlast.2⟩
    · obtain ⟨before, name, line, ⟨after, rfl⟩, hearlier, hnone⟩ := ih hsteps
      exact ⟨before, name, line, ⟨after ++ [last], by simp⟩, hearlier, hnone⟩

theorem Expr.mem_accesses_of_steps {name : String} {line : Nat} : ∀ {e : Expr}, .read name line ∈ e.steps →
    .read name line ∈ e.accesses
  | .literal _ _, h => by simp [steps] at h
  | .variable _ _, h => by simpa [steps, accesses] using h
  | .unary _ operand _, h => by
    simp only [steps, List.mem_append, List.mem_singleton, reduceCtorEq, or_false] at h
    exact mem_accesses_of_steps (e := operand) h
  | .binary _ left right _, h => by
    simp only [steps, List.mem_append, List.mem_singleton, reduceCtorEq, or_false] at h
    exact List.mem_append.mpr (h.imp mem_accesses_of_steps mem_accesses_of_steps)

theorem Block.mem_accesses_of_steps {block : Block} {name : String} {line : Nat}
    (h : .read name line ∈ block.steps) : .read name line ∈ Statement.allAccesses block.body := by
  obtain ⟨a, ha, hread⟩ := List.mem_flatMap.mp h
  simp only [Assignment.steps, List.mem_append, List.mem_singleton, reduceCtorEq, or_false] at hread
  rw [Statement.allAccesses_eq]
  exact List.mem_flatMap.mpr ⟨a, ha, List.mem_append_left _ (Expr.mem_accesses_of_steps hread)⟩

/-! ## Sound programs -/

/-- A machine that knows the variables of a block, and nothing else. -/
def Machine.opening (block : Block) : Machine := ⟨block.variableNames.foldl Context.declare (.ofStore .empty), []⟩

theorem Machine.not_holds_opening (block : Block) (name : String) : ¬ (opening block).context.Holds name := by
  simp [Context.Holds, opening, Context.store_foldl_declare, Context.ofStore]

/-- Every variable that a sound program reads is declared in its outer block. -/
theorem Machine.declared_opening {program : Program}
    (hsound : (Analysis.checkProgram program Analysis.start).result = .ok ()) {name : String} {line : Nat}
    (hread : .read name line ∈ program.block.steps) : name ∈ (opening program.block).context.declared := by
  have hdeclared := (covers_start.declared_of_access hsound (Block.mem_accesses_of_steps hread)).1
  rw [Evaluation.introduceAll_apply] at hdeclared
  exact hdeclared

/-- A run is the run of its steps. -/
theorem Machine.execute_opening (program : Program) :
    let run := Evaluation.runProgram program (.ofStore .empty)
    execute program.block.steps (opening program.block) = run.result.map fun _ => ⟨run.state, []⟩ := by
  rw [Block.steps, execute_assignments, Evaluation.runProgram_apply, Evaluation.runBlock_apply]
  rfl

/-- Without a value for its first read that needs one, a sound program fails there or before. -/
theorem Machine.execute_of_firstUnassigned {program : Program}
    (hsound : (Analysis.checkProgram program Analysis.start).result = .ok ()) {before : List Step} {name : String}
    {line : Nat} (h : Step.FirstUnassigned program.block.steps before name line) :
    (execute program.block.steps (opening program.block) = .error (.unassignedVariable name line) ∧
        ∃ reached, execute before (opening program.block) = .ok reached) ∨
      ∃ e, execute program.block.steps (opening program.block) = .error e ∧
        (opening program.block).Raises before e := by
  obtain ⟨⟨after, hsplit⟩, hearlier, hnone⟩ := h
  have hread : .read name line ∈ program.block.steps := by
    rw [hsplit]
    exact List.mem_append_right _ List.mem_cons_self
  rw [hsplit, execute_append]
  cases hbefore : execute before (opening program.block) with
  | error e => exact .inr ⟨e, rfl, raises_of_allAssigned hearlier hbefore⟩
  | ok reached =>
    obtain ⟨hdeclared, hholds⟩ := context_of_execute hbefore
    have hmissing : ¬ reached.context.Holds name := by
      rw [hholds]
      exact not_or.mpr ⟨hnone, not_holds_opening program.block name⟩
    have hname : name ∈ reached.context.declared := hdeclared ▸ declared_opening hsound hread
    refine .inl ⟨?_, reached, rfl⟩
    change (Except.map _ (reached.context.read name line) >>= _) = _
    rw [Context.read_of_not_holds hmissing hname]
    rfl

/-- **Reading before assigning is detected exactly.** If every read of a sound program follows an assignment to its
name, the program fails at operations only. Otherwise it fails at the first read that does not, unless one of the
operations before that read fails. -/
theorem runProgram_of_reads {program : Program}
    (hsound : (Analysis.checkProgram program Analysis.start).result = .ok ()) :
    let steps := program.block.steps
    let start := Machine.opening program.block
    let run := Evaluation.runProgram program (.ofStore .empty)
    Machine.execute steps start = run.result.map (fun _ => ⟨run.state, []⟩) ∧
    (Step.AllAssigned steps → ∀ name line,
      run.result ≠ .error (.unassignedVariable name line) ∧ run.result ≠ .error (.unknownVariable name line)) ∧
    (¬ Step.AllAssigned steps → ∃ before name line, Step.FirstUnassigned steps before name line) ∧
    ∀ before name line, Step.FirstUnassigned steps before name line →
      (run.result = .error (.unassignedVariable name line) ∧ ∃ reached, Machine.execute before start = .ok reached) ∨
        ∃ e, run.result = .error e ∧ start.Raises before e := by
  intro steps start run
  have hrun := Machine.execute_opening program
  have hfault {e : RuntimeError} : run.result = .error e ↔ Machine.execute steps start = .error e := by
    rw [hrun]
    cases run.result <;> simp [Except.map]
  refine ⟨hrun, fun hassigned name line => ?_, Step.exists_firstUnassigned, fun before name line hfirst => ?_⟩
  · have harith {e : RuntimeError} (he : run.result = .error e) : e.IsArithmetic :=
      (Machine.raises_of_allAssigned hassigned (hfault.mp he)).isArithmetic
    exact ⟨fun he => harith he, fun he => harith he⟩
  · simp only [hfault]
    exact Machine.execute_of_firstUnassigned hsound hfirst

/-- The read of `y` fails, and with the operands exchanged the quotient before it. -/
theorem runProgram_of_reads_exchanged :
    let quotient : Expr := .binary .quotient (.variable "x" 3) (.literal (.integer 0) 3) 3
    let y : Expr := .variable "y" 4
    let declarations : List Declaration := [.variable ⟨"x", ⟨.integer, 1⟩, 1⟩, .variable ⟨"y", ⟨.real, 1⟩, 1⟩]
    let program (left right : Expr) : Program := ⟨"p", ⟨declarations,
      [.assign "x" 2 (.literal (.integer 2) 2) 2, .compound [.assign "y" 3 (.binary .add left right 3) 3]]⟩, 1⟩
    let before : List Step := [.constant (.integer 2), .assign "x"]
    let more : List Step := [.read "x" 3, .constant (.integer 0), .binary .quotient 3]
    (Analysis.checkProgram (program y quotient) Analysis.start).result = .ok () ∧
    Step.FirstUnassigned (program y quotient).block.steps before "y" 4 ∧
    (Evaluation.runProgram (program y quotient) (.ofStore .empty)).result = .error (.unassignedVariable "y" 4) ∧
    (Analysis.checkProgram (program quotient y) Analysis.start).result = .ok () ∧
    Step.FirstUnassigned (program quotient y).block.steps (before ++ more) "y" 4 ∧
    (Machine.opening (program quotient y).block).Raises (before ++ more) (.divisionByZero 3) := by
  intro quotient y declarations program before more
  have hbefore : Step.AllAssigned before :=
    Step.allAssigned_concat.mpr ⟨Step.allAssigned_concat.mpr ⟨Step.allAssigned_nil, by simp⟩, by simp⟩
  have hmore : Step.AllAssigned (before ++ more) :=
    Step.allAssigned_concat.mpr ⟨Step.allAssigned_concat.mpr ⟨Step.allAssigned_concat.mpr
      ⟨hbefore, by simp [before]⟩, by simp⟩, by simp⟩
  have hfirst : Step.FirstUnassigned (program y quotient).block.steps before "y" 4 := ⟨⟨_, rfl⟩, hbefore, by decide⟩
  have hfirst' : Step.FirstUnassigned (program quotient y).block.steps (before ++ more) "y" 4 :=
    ⟨⟨_, rfl⟩, hmore, by decide⟩
  refine ⟨rfl, hfirst, ?_, rfl, hfirst', ?_⟩
  · rcases (runProgram_of_reads rfl).2.2.2 _ _ _ hfirst with ⟨hresult, -⟩ | ⟨e, hresult, hraises⟩
    · exact hresult
    · cases hresult
      exact hraises.isArithmetic.elim
  · rcases (runProgram_of_reads rfl).2.2.2 _ _ _ hfirst' with ⟨hresult, -⟩ | ⟨e, hresult, hraises⟩
    · cases hresult
    · cases hresult
      exact hraises

end MiniPascal
