import MiniPascal.Proofs.Evaluation.Assignments
import MiniPascal.Proofs.Soundness

/-!
# Histories of a context

A context is used for one tree after the other, whether the calls succeed or not. What it holds then are the names that
the blocks so far have declared, and the store that all assignments so far have made of the first one
(`Evaluation.Follows`). Both hold at every moment of a call at which a value is evaluated, since a call first declares
its variables and then makes one assignment after the other (`Evaluation.Call.Evaluates`).

* `Evaluation.reads_of_history`: what a read answers at every moment of every history.
-/

namespace MiniPascal

/-! ## Assignments to a store -/

namespace Store

/-- The store after assignments. -/
def assignAll (store : Store) (made : List (String × Value)) : Store :=
  made.foldl (fun store a => store.assign a.1 a.2) store

theorem assignAll_append (store : Store) (made more : List (String × Value)) :
    store.assignAll (made ++ more) = (store.assignAll made).assignAll more := List.foldl_append

/-- After assignments a variable holds the value assigned to it last, or the one it held before. -/
def Latest (store : Store) (made : List (String × Value)) (name : String) (value : Value) : Prop :=
  (∃ before after, made = before ++ (name, value) :: after ∧ ∀ a ∈ after, a.1 ≠ name) ∨
    (∀ a ∈ made, a.1 ≠ name) ∧ store.get? name = some value

end Store

namespace Context.Executes

variable {context final : Context} {as : List Assignment} {made : List (String × Value)}

theorem store_eq (h : context.Executes as made final) : final.store = context.store.assignAll made := by
  induction h with
  | nil context => rfl
  | cons _ _ ih => exact ih

theorem declared_eq (h : context.Executes as made final) : final.declared = context.declared := by
  induction h with
  | nil context => rfl
  | cons _ _ ih => exact ih

end Context.Executes

/-- What was assigned may be assigned again, as constants. -/
theorem Context.executes_constants (made : List (String × Value)) (context : Context) :
    ∃ final, context.Executes (made.map fun a => ⟨a.1, .literal a.2 0⟩) made final := by
  induction made generalizing context with
  | nil => exact ⟨context, .nil context⟩
  | cons first others ih =>
    obtain ⟨final, hothers⟩ := ih (context.assign first.1 first.2)
    exact ⟨final, .cons rfl hothers⟩

theorem Store.get?_assignAll {store : Store} {made : List (String × Value)} {name : String} {value : Value} :
    (store.assignAll made).get? name = some value ↔ store.Latest made name value := by
  obtain ⟨final, hfinal⟩ := Context.executes_constants made (.ofStore store)
  have hstore : final.store = store.assignAll made := hfinal.store_eq
  rw [← hstore]
  exact hfinal.get?_eq_some

/-- Assignments take no name away. -/
theorem Store.isSome_assignAll {store : Store} {name : String} (h : (store.get? name).isSome)
    (made : List (String × Value)) : ((store.assignAll made).get? name).isSome := by
  induction made generalizing store with
  | nil => exact h
  | cons first others ih =>
    apply ih
    rw [Store.get?_assign]
    split
    · rfl
    · exact h

/-! ## Calls -/

/-- The assignment that an event reports. -/
def Event.assignment? : Event → Option (String × Value)
  | assigned name value => some (name, value)
  | _ => none

namespace Evaluation

inductive Call where
  | program (tree : Program)
  | block (tree : Block)
  | statement (tree : Statement)
  | expression (tree : Expr)

namespace Call

def run : Call → Evaluation (Option Value)
  | program tree => runProgram tree
  | block tree => runBlock tree
  | statement tree => runStatement tree
  | expression tree => fun context => ⟨(context.eval tree).map some, context, []⟩

/-- The declarations that stand directly in the block of the call. -/
def declarations : Call → List Declaration
  | program tree => tree.block.declarations
  | block tree => tree.declarations
  | statement _ => []
  | expression _ => []

/-- A variable declaration directly in the block of the call introduces the name. -/
def Declares (call : Call) (name : String) : Prop :=
  ∃ declared, .variable declared ∈ call.declarations ∧ declared.name = name

def assignments : Call → List Assignment
  | program tree => tree.block.assignments
  | block tree => tree.assignments
  | statement tree => tree.assignments
  | expression _ => []

/-- The context once the variables of the call are declared. -/
def opened (call : Call) (context : Context) : Context :=
  (call.declarations.filterMap Declaration.variableName?).foldl Context.declare context

/-- The assignments that the call reports as made. -/
def made (call : Call) (context : Context) : List (String × Value) :=
  (call.run context).events.filterMap Event.assignment?

/-- In the course of the call the expression is evaluated in the context `now`, after the assignments `made`. -/
inductive Evaluates (context : Context) : Call → List (String × Value) → Context → Expr → Prop
  | expression (tree : Expr) : Evaluates context (.expression tree) [] context tree
  | value {call : Call} {before after : List Assignment} {a : Assignment} {made : List (String × Value)}
      {now : Context} : call.assignments = before ++ a :: after → (call.opened context).Executes before made now →
      Evaluates context call made now a.value

end Call

/-- The context after calls, each of which starts with what the call before it has left. -/
def afterCalls (context : Context) (calls : List Call) : Context :=
  calls.foldl (fun context call => (call.run context).state) context

/-- The assignments that the calls report as made. -/
def madeByCalls : Context → List Call → List (String × Value)
  | _, [] => []
  | context, first :: others => first.made context ++ madeByCalls (first.run context).state others

/-! ## What a call does -/

theorem filterMap_report (made : List (String × Value)) : (report made).filterMap Event.assignment? = made := by
  rw [report, List.filterMap_map]
  exact List.filterMap_some

theorem filterMap_skipped (names : List String) : (names.map Event.skipped).filterMap Event.assignment? = [] := by
  rw [List.filterMap_map]
  simp [Event.assignment?, Function.comp_def]

namespace Call

theorem state_run (call : Call) (context : Context) :
    (call.run context).state = (runAssignments call.assignments (call.opened context)).state := by
  cases call with
  | program tree => rw [run, runProgram_apply, runBlock_apply]; rfl
  | block tree => rw [run, runBlock_apply]; rfl
  | statement tree => rw [run, runStatement_eq]; rfl
  | expression tree => rfl

theorem made_eq (call : Call) (context : Context) :
    call.made context =
      (runAssignments call.assignments (call.opened context)).events.filterMap Event.assignment? := by
  cases call with
  | program tree =>
    simp only [made, run, runProgram_apply, runBlock_apply, List.filterMap_cons, List.filterMap_append,
      filterMap_skipped]
    rfl
  | block tree =>
    simp only [made, run, runBlock_apply, List.filterMap_append, filterMap_skipped]
    rfl
  | statement tree => rw [made, run, runStatement_eq]; rfl
  | expression tree => rfl

/-- However a call ends, it has executed its first assignments, those that it reports. -/
theorem exists_executes (call : Call) (context : Context) :
    ∃ before after, call.assignments = before ++ after ∧
      (call.opened context).Executes before (call.made context) (call.run context).state := by
  rw [state_run, made_eq]
  rcases executes_or_stops call.assignments (call.opened context) with
    ⟨made, final, hexecutes⟩ | ⟨before, a, after, made, final, e, hsplit, hexecutes, he⟩
  · refine ⟨call.assignments, [], (List.append_nil _).symm, ?_⟩
    rw [runAssignments_of_executes hexecutes, filterMap_report]
    exact hexecutes
  · refine ⟨before, a :: after, hsplit, ?_⟩
    rw [hsplit, runAssignments_of_stops hexecutes he, filterMap_report]
    exact hexecutes

/-- What a call has assigned at one of its moments, it reports as made. -/
theorem Evaluates.isPrefix {call : Call} {context now : Context} {made : List (String × Value)} {e : Expr}
    (h : call.Evaluates context made now e) : made <+: call.made context := by
  cases h with
  | expression => exact List.nil_prefix
  | value hsplit hexecutes =>
    rw [made_eq, hsplit, runAssignments_append, Traced.bind_apply, runAssignments_of_executes hexecutes]
    dsimp only
    rw [List.filterMap_append, filterMap_report]
    exact List.prefix_append _ _

theorem runAssignments_error_iff {call : Call} (hbody : ∀ tree, call ≠ .expression tree) (context : Context)
    (e : RuntimeError) :
    (runAssignments call.assignments (call.opened context)).result = .error e ↔
      ∃ made now expr, call.Evaluates context made now expr ∧ now.eval expr = .error e := by
  constructor
  · intro h
    obtain ⟨before, a, after, made, hsplit, hexecutes, he, -⟩ := runAssignments_eq_error.mp (by rw [← h])
    exact ⟨made, _, a.value, .value hsplit hexecutes, he⟩
  · rintro ⟨made, now, expr, hevaluates, he⟩
    cases hevaluates with
    | expression => exact absurd rfl (hbody _)
    | value hsplit hexecutes => rw [hsplit, runAssignments_of_stops hexecutes he]

/-- A call fails exactly with the fault of an expression that it evaluates. -/
theorem result_eq_error_iff (call : Call) (context : Context) (e : RuntimeError) :
    (call.run context).result = .error e ↔
      ∃ made now expr, call.Evaluates context made now expr ∧ now.eval expr = .error e := by
  cases call with
  | program tree =>
    rw [← runAssignments_error_iff (fun _ h => by cases h), run, runProgram_apply, runBlock_apply]
    rfl
  | block tree =>
    rw [← runAssignments_error_iff (fun _ h => by cases h), run, runBlock_apply]
    rfl
  | statement tree =>
    rw [← runAssignments_error_iff (fun _ h => by cases h), run, runStatement_eq]
    rfl
  | expression tree =>
    have hresult : ((Call.expression tree).run context).result = .error e ↔ context.eval tree = .error e := by
      change (context.eval tree).map some = .error e ↔ _
      cases context.eval tree <;> simp [Except.map]
    rw [hresult]
    constructor
    · exact fun he => ⟨[], context, tree, .expression tree, he⟩
    · rintro ⟨made, now, expr, hevaluates, he⟩
      cases hevaluates with
      | expression => exact he
      | @value _ before _ _ _ _ hsplit _ => cases before <;> cases hsplit

end Call

/-! ## What every history keeps -/

/-- A context as the calls begun so far and the assignments made so far have left it. -/
structure Follows (initial : Store) (begun : List Call) (made : List (String × Value)) (context : Context) : Prop where
  declared : ∀ name, name ∈ context.declared ↔ ∃ call ∈ begun, call.Declares name
  store : context.store = initial.assignAll made

theorem follows_start (initial : Store) : Follows initial [] [] (.ofStore initial) := by
  refine ⟨fun name => ?_, rfl⟩
  simp [Context.ofStore]

namespace Follows

variable {initial : Store} {begun : List Call} {made more : List (String × Value)} {context final : Context}

/-- A call begins with the declarations of its variables. -/
theorem opened (h : Follows initial begun made context) (call : Call) :
    Follows initial (begun ++ [call]) made (call.opened context) := by
  refine ⟨fun name => ?_, ?_⟩
  · have hintroduce : (introduceAll call.declarations context).state = call.opened context := by
      rw [introduceAll_apply]
      rfl
    rw [← hintroduce, mem_declared_introduceAll, h.declared]
    simp [Call.Declares, or_and_right, exists_or]
  · rw [Call.opened, Context.store_foldl_declare, h.store]

theorem executes (h : Follows initial begun made context) {as : List Assignment}
    (hexecutes : context.Executes as more final) : Follows initial begun (made ++ more) final := by
  refine ⟨fun name => ?_, ?_⟩
  · rw [hexecutes.declared_eq, h.declared]
  · rw [hexecutes.store_eq, h.store, Store.assignAll_append]

theorem run (h : Follows initial begun made context) (call : Call) :
    Follows initial (begun ++ [call]) (made ++ call.made context) (call.run context).state := by
  obtain ⟨before, after, -, hexecutes⟩ := call.exists_executes context
  exact (h.opened call).executes hexecutes

theorem afterCalls (h : Follows initial begun made context) (calls : List Call) :
    Follows initial (begun ++ calls) (made ++ madeByCalls context calls) (afterCalls context calls) := by
  induction calls generalizing begun made context with
  | nil => simpa [Evaluation.afterCalls, madeByCalls] using h
  | cons first others ih =>
    have hothers := ih (h.run first)
    simpa [Evaluation.afterCalls, madeByCalls] using hothers

/-- A name without a value is unassigned if a block so far has declared it, and unknown otherwise. -/
theorem read_of_none (h : Follows initial begun made context) {name : String} (hname : context.store.get? name = none)
    (line : Nat) :
    (context.read name line = .error (.unassignedVariable name line) ↔ ∃ call ∈ begun, call.Declares name) ∧
      (context.read name line = .error (.unknownVariable name line) ↔ ¬ ∃ call ∈ begun, call.Declares name) := by
  rw [← h.declared, Context.read, hname]
  by_cases hdeclared : name ∈ context.declared
  · simp [hdeclared]
  · simp [hdeclared]

theorem read_of_some (h : Follows initial begun made context) {name : String} {value : Value}
    (hname : context.store.get? name = some value) (line : Nat) :
    context.read name line = .ok value ∧ initial.Latest made name value := by
  refine ⟨by rw [Context.read, hname], ?_⟩
  rw [← Store.get?_assignAll, ← h.store]
  exact hname

/-- Also at a moment inside a call, the context is what has been declared and assigned so far. -/
theorem evaluates (h : Follows initial begun made context) {call : Call} {now : Context} {e : Expr}
    (hevaluates : call.Evaluates context more now e) : Follows initial (begun ++ [call]) (made ++ more) now := by
  cases hevaluates with
  | expression =>
    rw [List.append_nil]
    exact h.opened (.expression e)
  | value _ hexecutes => exact (h.opened call).executes hexecutes

end Follows

/-- **Unassigned and unknown names are told apart over any history**, and a name with a value holds the one assigned
last or the initial one. This is so whenever an expression is evaluated in the course of a call, whatever calls were
made before and however they ended; the faults of calls are those of such expressions, and no call takes a name away. -/
theorem reads_of_history (initial : Store) (earlier : List Call) (call : Call) :
    let context := afterCalls (.ofStore initial) earlier
    (∀ made now expr, call.Evaluates context made now expr →
      made <+: call.made context ∧
      ∀ name line,
        (now.store.get? name = none →
          (now.read name line = .error (.unassignedVariable name line) ↔
            ∃ begun ∈ earlier ++ [call], begun.Declares name) ∧
          (now.read name line = .error (.unknownVariable name line) ↔
            ¬ ∃ begun ∈ earlier ++ [call], begun.Declares name)) ∧
        ∀ value, now.store.get? name = some value →
          now.read name line = .ok value ∧
            initial.Latest (madeByCalls (.ofStore initial) earlier ++ made) name value) ∧
    (∀ e, (call.run context).result = .error e ↔
      ∃ made now expr, call.Evaluates context made now expr ∧ now.eval expr = .error e) ∧
    ∀ name, (context.store.get? name).isSome → ((call.run context).state.store.get? name).isSome := by
  intro context
  have hcontext : Follows initial earlier (madeByCalls (.ofStore initial) earlier) context :=
    (follows_start initial).afterCalls earlier
  refine ⟨fun made now expr hevaluates => ⟨hevaluates.isPrefix, fun name line => ?_⟩,
    call.result_eq_error_iff context, fun name hname => ?_⟩
  · have hnow := hcontext.evaluates hevaluates
    exact ⟨fun hnone => hnow.read_of_none hnone line, fun value hvalue => hnow.read_of_some hvalue line⟩
  · rw [(hcontext.run call).store, Store.assignAll_append, ← hcontext.store]
    exact Store.isSome_assignAll hname _

/-- A program declares `x`, and `w` in a procedure; it assigns `y` and fails. A statement then reads `y`, and after it
`x`. -/
theorem reads_of_history_faulty :
    let initial := Store.empty.assign "y" (.integer 7)
    let skipped : Declaration := .procedure "q" [⟨"z", ⟨.real, 1⟩, 1⟩] ⟨[.variable ⟨"w", ⟨.real, 1⟩, 1⟩], []⟩ 1
    let quotient : Expr := .binary .quotient (.literal (.integer 1) 3) (.literal (.integer 0) 3) 3
    let program : Program := ⟨"p", ⟨[.variable ⟨"x", ⟨.integer, 1⟩, 1⟩, skipped],
      [.assign "y" 2 (.literal (.integer 1) 2) 2, .assign "x" 3 quotient 3]⟩, 1⟩
    let call : Call := .statement (.compound [.assign "u" 4 (.variable "y" 4) 4, .assign "v" 5 (.variable "x" 5) 5])
    let context := afterCalls (.ofStore initial) [.program program]
    ((Call.program program).run (.ofStore initial)).result = .error (.divisionByZero 3) ∧
      (call.run context).result = .error (.unassignedVariable "x" 5) ∧
      ∃ now, call.Evaluates context [("u", .integer 1)] now (.variable "x" 5) ∧
        now.read "x" 5 = .error (.unassignedVariable "x" 5) ∧ now.read "w" 5 = .error (.unknownVariable "w" 5) ∧
        initial.Latest [("y", .integer 1), ("u", .integer 1)] "y" (.integer 1) := by
  intro initial skipped quotient program call context
  have hexecutes : (call.opened context).Executes [⟨"u", .variable "y" 4⟩] [("u", .integer 1)]
      (context.assign "u" (.integer 1)) := .cons rfl (.nil _)
  have hevaluates : call.Evaluates context [("u", .integer 1)] (context.assign "u" (.integer 1)) (.variable "x" 5) :=
    .value (a := ⟨"v", .variable "x" 5⟩) rfl hexecutes
  obtain ⟨hreads, -, -⟩ := reads_of_history initial [.program program] call
  have hnow := (hreads _ _ _ hevaluates).2
  refine ⟨rfl, rfl, _, hevaluates, ?_, ?_, ?_⟩
  · refine ((hnow "x" 5).1 rfl).1.mpr ⟨.program program, List.mem_cons_self, _, List.mem_cons_self, rfl⟩
  · refine ((hnow "w" 5).1 rfl).2.mpr ?_
    rintro ⟨begun, hbegun, declared, hdeclared, hname⟩
    simp only [List.cons_append, List.nil_append, List.mem_cons, List.not_mem_nil, or_false] at hbegun
    rcases hbegun with rfl | rfl
    · simp [Call.declarations, program, skipped] at hdeclared
      simp [hdeclared] at hname
    · cases hdeclared
  · exact ((hnow "y" 5).2 (.integer 1) rfl).2

end Evaluation

end MiniPascal
