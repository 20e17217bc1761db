import MiniPascal.Proofs.Access
import MiniPascal.Proofs.Interpreter

/-!
# Analysis is sound for evaluation

Programs are checked one after the other with one analysis and run one after the other on one context, where a fault
does not keep the next program from running. Between any two programs, every variable of the outermost scope was
declared to the context and by one of the programs so far (`Covers`): this is what a sound program keeps
(`Covers.step`).

* `faults_of_accepted_programs`: sound programs fail only at operations and at declared variables without a value.
-/

namespace MiniPascal

/-- A variable declaration in the outer block introduces the name. -/
def Program.Declares (program : Program) (name : String) : Prop :=
  ∃ declared, .variable declared ∈ program.block.declarations ∧ declared.name = name

/-- The programs are sound when they are checked one after the other. -/
def Analysis.AcceptsAll : Scopes → List Program → Prop
  | _, [] => True
  | scopes, first :: others =>
    (checkProgram first scopes).result = .ok () ∧ AcceptsAll (checkProgram first scopes).state others

/-- The results of programs that run one after the other, whether they fail or not. -/
def Evaluation.runAll : Context → List Program → List (Except RuntimeError (Option Value))
  | _, [] => []
  | context, first :: others =>
    (runProgram first context).result :: runAll (runProgram first context).state others

/-! ## Declared names -/

namespace Evaluation

theorem mem_declared_introduceAll {name : String} : ∀ {ds : List Declaration} {context : Context},
    name ∈ (introduceAll ds context).state.declared ↔
      name ∈ context.declared ∨ ∃ declared, .variable declared ∈ ds ∧ declared.name = name
  | [], context => by simp [introduceAll]
  | .variable first :: others, context => by
    have hstate : (introduceAll (.variable first :: others) context).state =
        (introduceAll others (context.declare first.name)).state :=
      Traced.state_bind_of_ok (a := ()) _ rfl
    rw [hstate, mem_declared_introduceAll]
    simp [Context.declare, eq_comm, or_assoc, or_and_right, exists_or, or_left_comm]
  | .procedure skipped parameters block line :: others, context => by
    have hstate : (introduceAll (.procedure skipped parameters block line :: others) context).state =
        (introduceAll others context).state :=
      Traced.state_bind_of_ok (a := ()) _ rfl
    rw [hstate, mem_declared_introduceAll]
    simp

theorem result_introduceAll : ∀ (ds : List Declaration) (context : Context), (introduceAll ds context).result = .ok ()
  | [], _ => rfl
  | .variable _ :: others, _ => Traced.result_bind_eq_ok.mpr ⟨(), rfl, result_introduceAll others _⟩
  | .procedure .. :: others, _ => Traced.result_bind_eq_ok.mpr ⟨(), rfl, result_introduceAll others _⟩

/-- A run is the run of its body, once the declarations are known. -/
theorem result_runProgram (program : Program) (context : Context) :
    (runProgram program context).result =
      (runStatements program.block.body (introduceAll program.block.declarations context).state).result := by
  simp only [runProgram, runBlock, Traced.result_bind, Traced.emit, result_introduceAll]
  rfl

theorem mem_declared_runProgram {program : Program} {context : Context} {name : String} :
    name ∈ (runProgram program context).state.declared ↔ name ∈ context.declared ∨ program.Declares name := by
  have hstate : (runProgram program context).state =
      (runStatements program.block.body (introduceAll program.block.declarations context).state).state := by
    unfold runProgram runBlock
    rw [Traced.state_bind_of_ok (a := ()) _ rfl]
    exact Traced.state_bind_of_ok _ (result_introduceAll _ _)
  rw [hstate, declared_runStatements, mem_declared_introduceAll, Program.Declares]

end Evaluation

/-! ## What programs leave to the next one -/

/-- Scopes and a context as the programs so far may have left them. -/
structure Covers (earlier : List Program) (scopes : Scopes) (context : Context) : Prop where
  /-- Only the outermost scope is open. -/
  outermost : scopes.enclosing = []
  declared : ∀ v, .variable v ∈ scopes.current.symbols → v.name ∈ context.declared
  introduced : ∀ v, .variable v ∈ scopes.current.symbols → ∃ p ∈ earlier, p.Declares v.name

/-- The faults that sound programs can meet. -/
def RuntimeError.IsExpected (programs : List Program) (e : RuntimeError) : Prop :=
  (∃ name line, e = .unassignedVariable name line ∧ ∃ p ∈ programs, p.Declares name) ∨
    (∃ line, e = .divisionByZero line) ∨ ∃ line, e = .overflow line

theorem RuntimeError.IsArithmetic.isExpected {e : RuntimeError} (h : e.IsArithmetic) (programs : List Program) :
    e.IsExpected programs := by
  cases e with
  | unknownVariable name line => exact h.elim
  | unassignedVariable name line => exact h.elim
  | divisionByZero line => exact .inr (.inl ⟨line, rfl⟩)
  | overflow line => exact .inr (.inr ⟨line, rfl⟩)

theorem covers_start : Covers [] Analysis.start (.ofStore .empty) where
  outermost := rfl
  declared v hv := by simp [Analysis.symbols_start] at hv
  introduced v hv := by simp [Analysis.symbols_start] at hv

namespace Covers

variable {earlier : List Program} {scopes : Scopes} {context : Context} {program : Program}

theorem step (h : Covers earlier scopes context) (hsound : (Analysis.checkProgram program scopes).result = .ok ()) :
    Covers (earlier ++ [program]) (Analysis.checkProgram program scopes).state
      (Evaluation.runProgram program context).state := by
  rw [Analysis.result_checkProgram] at hsound
  rw [Analysis.state_checkProgram, Analysis.state_checkBlock_of_ok hsound]
  refine ⟨h.outermost, fun v hv => ?_, fun v hv => ?_⟩
  · rw [Evaluation.mem_declared_runProgram]
    exact (List.mem_append.mp hv).imp (h.declared v) Declaration.exists_of_symbol
  · rcases List.mem_append.mp hv with hv | hv
    · obtain ⟨p, hp, hdeclares⟩ := h.introduced v hv
      exact ⟨p, List.mem_append_left _ hp, hdeclares⟩
    · exact ⟨program, by simp, Declaration.exists_of_symbol hv⟩

/-- Every variable that a sound body names is declared by then, in the context and by a program. -/
theorem declared_of_access (h : Covers earlier scopes context)
    (hsound : (Analysis.checkProgram program scopes).result = .ok ()) {a : Access}
    (ha : a ∈ Statement.allAccesses program.block.body) :
    a.name ∈ (Evaluation.introduceAll program.block.declarations context).state.declared ∧
      ∃ p ∈ earlier ++ [program], p.Declares a.name := by
  have hnext := h.step hsound
  rw [Analysis.result_checkProgram] at hsound
  rw [Analysis.state_checkProgram, Analysis.state_checkBlock_of_ok hsound] at hnext
  have hbody := Analysis.result_checkStatements_eq_ok.mp (Analysis.result_checkBlock_eq_ok.mp hsound).2
  obtain ⟨v, hv⟩ := hbody a ha
  have hmem := Scopes.mem_symbols_of_lookup hnext.outermost hv
  have hname : v.name = a.name := Scopes.name_of_lookup hv
  have hdeclared := hnext.declared v hmem
  rw [Evaluation.mem_declared_runProgram, hname, Program.Declares, ← Evaluation.mem_declared_introduceAll] at hdeclared
  exact ⟨hdeclared, hname ▸ hnext.introduced v hmem⟩

theorem fault (h : Covers earlier scopes context) (hsound : (Analysis.checkProgram program scopes).result = .ok ())
    {e : RuntimeError} (he : (Evaluation.runProgram program context).result = .error e) :
    e.IsExpected (earlier ++ [program]) := by
  rw [Evaluation.result_runProgram] at he
  rcases Evaluation.result_runStatements_eq_error he with harith | ⟨name, line, hread, rfl⟩
  · exact harith.isExpected _
  · obtain ⟨hdeclared, hdeclares⟩ := h.declared_of_access hsound hread
    rw [Access.name] at hdeclared
    exact .inl ⟨name, line, by rw [Context.missing, if_pos hdeclared], hdeclares⟩

end Covers

/-- The `i`-th of the sound programs that follow `earlier` meets only expected faults. -/
theorem isExpected_of_runAll : ∀ {programs earlier : List Program} {scopes : Scopes} {context : Context},
    Covers earlier scopes context → Analysis.AcceptsAll scopes programs → ∀ {i : Nat} {e : RuntimeError},
      (Evaluation.runAll context programs)[i]? = some (.error e) → e.IsExpected (earlier ++ programs.take (i + 1))
  | [], _, _, _, _, _, i, e, he => by simp [Evaluation.runAll] at he
  | first :: others, earlier, scopes, context, h, haccept, 0, e, he => by
    rw [Evaluation.runAll, List.getElem?_cons_zero, Option.some.injEq] at he
    exact h.fault haccept.1 he
  | first :: others, earlier, scopes, context, h, haccept, i + 1, e, he => by
    rw [Evaluation.runAll, List.getElem?_cons_succ] at he
    have := isExpected_of_runAll (h.step haccept.1) haccept.2 he
    rwa [List.append_assoc] at this

/-- A fault of a whole run at its last stage is a fault of the evaluation of a sound program. -/
theorem exists_of_runProgram_eq_runtime {source : String} {e : RuntimeError}
    (h : runProgram source = .error (.runtime e)) :
    ∃ tree, (Analysis.checkProgram tree Analysis.start).result = .ok () ∧
      (Evaluation.runProgram tree (.ofStore .empty)).result = .error e := by
  rcases runProgram_cases source with
    ⟨_, -, h'⟩ | ⟨_, _, -, -, h'⟩ | ⟨_, _, _, -, -, -, h'⟩ | ⟨_, tree, -, -, hsound, h'⟩
  · cases h.symm.trans h'
  · cases h.symm.trans h'
  · cases h.symm.trans h'
  · rw [h] at h'
    cases hrun : (Evaluation.runProgram tree (.ofStore .empty)).result with
    | error fault => rw [hrun] at h'; cases h'; exact ⟨tree, hsound, hrun⟩
    | ok result => rw [hrun] at h'; cases h'

/-- **Analysis is sound for evaluation**: programs that are accepted one after the other and run one after the other
never read an unknown variable, whichever of them fail; nor does a source that is run on its own. -/
theorem faults_of_accepted_programs :
    (∀ programs : List Program, Analysis.AcceptsAll Analysis.start programs → ∀ (i : Nat) (e : RuntimeError),
      (Evaluation.runAll (.ofStore .empty) programs)[i]? = some (.error e) →
        (∃ name line, e = .unassignedVariable name line ∧ ∃ p ∈ programs.take (i + 1), p.Declares name) ∨
          (∃ line, e = .divisionByZero line) ∨ ∃ line, e = .overflow line) ∧
    ∀ source name line, runProgram source ≠ .error (.runtime (.unknownVariable name line)) := by
  refine ⟨fun programs haccept i e he => isExpected_of_runAll covers_start haccept he, fun source name line h => ?_⟩
  obtain ⟨tree, hsound, hrun⟩ := exists_of_runProgram_eq_runtime h
  rcases covers_start.fault hsound hrun with ⟨_, _, he, -⟩ | ⟨_, he⟩ | ⟨_, he⟩ <;> cases he

/-- The first program divides by zero before it assigns; the second reads what the first has declared. -/
theorem faults_of_two_accepted_programs :
    let first : Program := ⟨"p", ⟨
      [.variable ⟨"x", ⟨.integer, 1⟩, 1⟩, .procedure "q" [⟨"y", ⟨.real, 2⟩, 2⟩] ⟨[], [.skip]⟩ 2],
      [.assign "x" 3 (.binary .quotient (.literal (.integer 1) 3) (.literal (.integer 0) 3) 4) 3]⟩, 1⟩
    let second : Program := ⟨"r", ⟨[.variable ⟨"z", ⟨.integer, 1⟩, 1⟩], [.assign "z" 2 (.variable "x" 2) 2]⟩, 1⟩
    Analysis.AcceptsAll Analysis.start [first, second] ∧
      Evaluation.runAll (.ofStore .empty) [first, second] =
        [.error (.divisionByZero 4), .error (.unassignedVariable "x" 2)] ∧
      ∃ p ∈ [first, second], p.Declares "x" := by
  intro first second
  have haccept : Analysis.AcceptsAll Analysis.start [first, second] := ⟨rfl, rfl, trivial⟩
  have hrun : Evaluation.runAll (.ofStore .empty) [first, second] =
      [.error (.divisionByZero 4), .error (.unassignedVariable "x" 2)] := rfl
  refine ⟨haccept, hrun, ?_⟩
  rcases faults_of_accepted_programs.1 _ haccept 1 _ (by rw [hrun]; rfl) with ⟨_, _, he, hp⟩ | ⟨_, he⟩ | ⟨_, he⟩
  · cases he; exact hp
  · cases he
  · cases he

end MiniPascal
