import MiniPascal.Proofs.Access
import MiniPascal.Proofs.Interpreter
import MiniPascal.Proofs.Store

/-!
# Running a block is running its assignments

The assignments of a body form one list, however deep they are nested (`Block.assignments`). A run of the body is a run
of that list (`Evaluation.runStatements_eq`), and a run of the list makes one assignment after the other until it is
through or a value fails (`Context.Executes`).

* `runBlock_flat`: result, store and log of a block, and the variables of a program, read off that list.
-/

namespace MiniPascal

structure Assignment where
  target : String
  value : Expr

mutual

/-- The assignments in the order of their execution. -/
def Statement.assignments : Statement → List Assignment
  | .compound children => Statement.allAssignments children
  | .assign target _ value _ => [⟨target, value⟩]
  | .skip => []

def Statement.allAssignments : List Statement → List Assignment
  | [] => []
  | first :: others => first.assignments ++ Statement.allAssignments others

end

def Assignment.accesses (a : Assignment) : List Access := a.value.accesses ++ [.write a.target]

mutual

theorem Statement.accesses_eq : ∀ s : Statement, s.accesses = s.assignments.flatMap Assignment.accesses
  | .compound children => by
    rw [Statement.accesses, Statement.assignments, Statement.allAccesses_eq children]
  | .assign target _ value _ => by
    rw [Statement.accesses, Statement.assignments, List.flatMap_singleton]
    rfl
  | .skip => by
    rw [Statement.accesses, Statement.assignments, List.flatMap_nil]

/-- What a body reads and writes is what its assignments read and write. -/
theorem Statement.allAccesses_eq : ∀ ss : List Statement,
    Statement.allAccesses ss = (Statement.allAssignments ss).flatMap Assignment.accesses
  | [] => by
    rw [Statement.allAccesses, Statement.allAssignments, List.flatMap_nil]
  | first :: others => by
    rw [Statement.allAccesses, Statement.allAssignments, List.flatMap_append, Statement.accesses_eq first,
      Statement.allAccesses_eq others]

end

def Declaration.variableName? : Declaration → Option String
  | .variable declared => some declared.name
  | .procedure .. => none

def Declaration.procedureName? : Declaration → Option String
  | .variable _ => none
  | .procedure name _ _ _ => some name

namespace Block

def variableNames (block : Block) : List String := block.declarations.filterMap Declaration.variableName?

def procedureNames (block : Block) : List String := block.declarations.filterMap Declaration.procedureName?

/-- The assignments of the body. Those in procedures are not among them. -/
def assignments (block : Block) : List Assignment := Statement.allAssignments block.body

end Block

/-- All values evaluate, each after the assignments before it, and `made` lists what was assigned. -/
inductive Context.Executes : Context → List Assignment → List (String × Value) → Context → Prop
  | nil (context : Context) : Executes context [] [] context
  | cons {context final : Context} {a : Assignment} {others : List Assignment} {value : Value}
      {made : List (String × Value)} : context.eval a.value = .ok value →
      Executes (context.assign a.target value) others made final →
      Executes context (a :: others) ((a.target, value) :: made) final

/-! ## Runs of the list -/

namespace Evaluation

/-- Makes one assignment after the other; the result is the value assigned last, if any. -/
def runAssignments : List Assignment → Evaluation (Option Value)
  | [] => pure none
  | first :: others => do
    let value ← assign first.target first.value
    (·.or (some value)) <$> runAssignments others

/-- What is reported of assignments. -/
def report (made : List (String × Value)) : List Event := made.map fun a => .assigned a.1 a.2

theorem runAssignments_cons_of_ok {context : Context} {a : Assignment} {value : Value}
    (h : context.eval a.value = .ok value) (others : List Assignment) :
    runAssignments (a :: others) context =
      let later := runAssignments others (context.assign a.target value)
      ⟨later.result.map (·.or (some value)), later.state, .assigned a.target value :: later.events⟩ := by
  rw [runAssignments, Traced.bind_apply, assign, h]
  rfl

theorem runAssignments_cons_of_error {context : Context} {a : Assignment} {e : RuntimeError}
    (h : context.eval a.value = .error e) (others : List Assignment) :
    runAssignments (a :: others) context = ⟨.error e, context, []⟩ := by
  rw [runAssignments, Traced.bind_apply, assign, h]

/-- A later list has the last word, if it assigns at all. -/
theorem runAssignments_append (first others : List Assignment) :
    runAssignments (first ++ others) =
      runAssignments first >>= fun earlier => (fun later => later.or earlier) <$> runAssignments others := by
  induction first with
  | nil => simp [runAssignments]
  | cons a first ih =>
    rw [List.cons_append, runAssignments, runAssignments, ih]
    simp

mutual

theorem runStatement_eq : ∀ s : Statement, runStatement s = runAssignments s.assignments
  | .compound children => by
    rw [runStatement, Statement.assignments]
    exact runStatements_eq children
  | .assign target _ value _ => by
    rw [runStatement, Statement.assignments, runAssignments, runAssignments]
    simp
  | .skip => by
    rw [runStatement, Statement.assignments, runAssignments]

/-- Nesting does not matter. -/
theorem runStatements_eq : ∀ ss : List Statement, runStatements ss = runAssignments (Statement.allAssignments ss)
  | [] => by
    rw [runStatements, Statement.allAssignments, runAssignments]
  | first :: others => by
    rw [runStatements, Statement.allAssignments, runAssignments_append, runStatement_eq, runStatements_eq]

end

/-! ## The list up to its end or its first fault -/

/-- A list is executed to its end, or up to an assignment whose value fails. -/
theorem executes_or_stops (as : List Assignment) (context : Context) :
    (∃ made final, context.Executes as made final) ∨
      ∃ before a after made final e, as = before ++ a :: after ∧ context.Executes before made final ∧
        final.eval a.value = .error e := by
  induction as generalizing context with
  | nil => exact .inl ⟨[], context, .nil context⟩
  | cons a others ih =>
    cases h : context.eval a.value with
    | error e => exact .inr ⟨[], a, others, [], context, e, rfl, .nil context, h⟩
    | ok value =>
      rcases ih (context.assign a.target value) with
        ⟨made, final, hmade⟩ | ⟨before, b, after, made, final, e, hsplit, hmade, he⟩
      · exact .inl ⟨_, final, .cons h hmade⟩
      · exact .inr ⟨a :: before, b, after, _, final, e, by rw [hsplit]; rfl, .cons h hmade, he⟩

theorem getLast?_report_cons (a : String × Value) (made : List (String × Value)) :
    (made.getLast?.map Prod.snd).or (some a.2) = (a :: made).getLast?.map Prod.snd := by
  rw [List.getLast?_cons]
  cases made.getLast? <;> rfl

theorem runAssignments_of_executes {as : List Assignment} {context final : Context} {made : List (String × Value)}
    (h : context.Executes as made final) :
    runAssignments as context = ⟨.ok (made.getLast?.map Prod.snd), final, report made⟩ := by
  induction h with
  | nil context => rfl
  | cons hvalue _ ih =>
    rw [runAssignments_cons_of_ok hvalue, ih, ← getLast?_report_cons]
    rfl

theorem runAssignments_of_stops {before after : List Assignment} {a : Assignment} {context final : Context}
    {made : List (String × Value)} {e : RuntimeError} (h : context.Executes before made final)
    (he : final.eval a.value = .error e) :
    runAssignments (before ++ a :: after) context = ⟨.error e, final, report made⟩ := by
  induction h with
  | nil context => exact runAssignments_cons_of_error he after
  | cons hvalue _ ih =>
    rw [List.cons_append, runAssignments_cons_of_ok hvalue, ih he]
    rfl

theorem runAssignments_eq_ok {as : List Assignment} {context final : Context} {result : Option Value}
    {events : List Event} :
    runAssignments as context = ⟨.ok result, final, events⟩ ↔
      ∃ made, context.Executes as made final ∧ result = made.getLast?.map Prod.snd ∧ events = report made := by
  constructor
  · intro h
    rcases executes_or_stops as context with ⟨made, last, hmade⟩ | ⟨before, a, after, made, last, e, rfl, hmade, he⟩
    · rw [runAssignments_of_executes hmade] at h
      cases h
      exact ⟨made, hmade, rfl, rfl⟩
    · rw [runAssignments_of_stops hmade he] at h
      cases h
  · rintro ⟨made, hmade, rfl, rfl⟩
    exact runAssignments_of_executes hmade

theorem runAssignments_eq_error {as : List Assignment} {context final : Context} {e : RuntimeError}
    {events : List Event} :
    runAssignments as context = ⟨.error e, final, events⟩ ↔
      ∃ before a after made, as = before ++ a :: after ∧ context.Executes before made final ∧
        final.eval a.value = .error e ∧ events = report made := by
  constructor
  · intro h
    rcases executes_or_stops as context with ⟨made, last, hmade⟩ | ⟨before, a, after, made, last, e, rfl, hmade, he⟩
    · rw [runAssignments_of_executes hmade] at h
      cases h
    · rw [runAssignments_of_stops hmade he] at h
      cases h
      exact ⟨before, a, after, made, rfl, hmade, he, rfl⟩
  · rintro ⟨before, a, after, made, rfl, hmade, he, rfl⟩
    exact runAssignments_of_stops hmade he

/-! ## Blocks -/

/-- Declarations only announce names, and report the procedures that they skip. -/
theorem introduceAll_apply : ∀ (ds : List Declaration) (context : Context),
    introduceAll ds context =
      ⟨.ok (), (ds.filterMap Declaration.variableName?).foldl Context.declare context,
        (ds.filterMap Declaration.procedureName?).map .skipped⟩
  | [], _ => rfl
  | .variable declared :: ds, context => by
    rw [introduceAll, Traced.bind_apply]
    exact introduceAll_apply ds (context.declare declared.name)
  | .procedure name parameters block line :: ds, context => by
    rw [introduceAll, Traced.bind_apply]
    simp only [introduce, Traced.emit, introduceAll_apply ds]
    rfl

theorem runBlock_apply (block : Block) (context : Context) :
    runBlock block context =
      let outcome := runAssignments block.assignments (block.variableNames.foldl Context.declare context)
      ⟨outcome.result, outcome.state, block.procedureNames.map .skipped ++ outcome.events⟩ := by
  rw [runBlock, Traced.bind_apply, introduceAll_apply, runStatements_eq]
  rfl

theorem runBlock_eq_iff {block : Block} {context final : Context} {result : Except RuntimeError (Option Value)}
    {events : List Event} :
    runBlock block context = ⟨result, final, events⟩ ↔
      ∃ later, runAssignments block.assignments (block.variableNames.foldl Context.declare context) =
        ⟨result, final, later⟩ ∧ events = block.procedureNames.map .skipped ++ later := by
  rw [runBlock_apply]
  constructor
  · intro h
    cases h
    exact ⟨_, rfl, rfl⟩
  · rintro ⟨later, h, rfl⟩
    rw [h]

theorem runProgram_apply (program : Program) (context : Context) :
    runProgram program context =
      let outcome := runBlock program.block context
      ⟨outcome.result, outcome.state, .evaluating program.name :: outcome.events⟩ := rfl

end Evaluation

/-! ## What a list of assignments leaves -/

namespace Context.Executes

variable {context final : Context} {as : List Assignment} {made : List (String × Value)}

theorem map_fst (h : context.Executes as made final) : made.map Prod.fst = as.map Assignment.target := by
  induction h with
  | nil context => rfl
  | cons _ _ ih => simp [ih]

/-- There is no last value if and only if nothing is assigned. -/
theorem getLast?_eq_none (h : context.Executes as made final) : made.getLast?.map Prod.snd = none ↔ as = [] := by
  cases h <;> simp

/-- A variable holds what was assigned to it last, or what it held before. -/
theorem get?_eq_some (h : context.Executes as made final) {name : String} {value : Value} :
    final.store.get? name = some value ↔
      (∃ before after, made = before ++ (name, value) :: after ∧ ∀ a ∈ after, a.1 ≠ name) ∨
        (∀ a ∈ made, a.1 ≠ name) ∧ context.store.get? name = some value := by
  induction h with
  | nil context => simp
  | @cons context final a others v made _ _ ih =>
    have hget : (context.assign a.target v).store.get? name =
        if name = a.target then some v else context.store.get? name := Store.get?_assign _ _ _ _
    rw [ih, hget]
    constructor
    · rintro (⟨before, after, rfl, hafter⟩ | ⟨hmade, hvalue⟩)
      · exact .inl ⟨(a.target, v) :: before, after, rfl, hafter⟩
      · by_cases hname : name = a.target
        · rw [if_pos hname, Option.some.injEq] at hvalue
          exact .inl ⟨[], made, by rw [hname, hvalue]; rfl, hmade⟩
        · rw [if_neg hname] at hvalue
          exact .inr ⟨List.forall_mem_cons.mpr ⟨Ne.symm hname, hmade⟩, hvalue⟩
    · rintro (⟨before, after, hsplit, hafter⟩ | ⟨hmade, hvalue⟩)
      · cases before with
        | nil =>
          cases hsplit
          exact .inr ⟨hafter, if_pos rfl⟩
        | cons b before =>
          cases hsplit
          exact .inl ⟨before, after, rfl, hafter⟩
      · obtain ⟨hname, hmade⟩ := List.forall_mem_cons.mp hmade
        exact .inr ⟨hmade, by rw [if_neg (Ne.symm hname)]; exact hvalue⟩

/-- Of the assignments to a name, one is the last. -/
theorem exists_last {name : String} {made : List (String × Value)} (h : ∃ a ∈ made, a.1 = name) :
    ∃ before value after, made = before ++ (name, value) :: after ∧ ∀ a ∈ after, a.1 ≠ name := by
  induction made with
  | nil =>
    obtain ⟨a, ha, -⟩ := h
    cases ha
  | cons first others ih =>
    by_cases hothers : ∃ a ∈ others, a.1 = name
    · obtain ⟨before, value, after, rfl, hafter⟩ := ih hothers
      exact ⟨first :: before, value, after, rfl, hafter⟩
    · have hnone : ∀ a ∈ others, a.1 ≠ name := fun a ha hname => hothers ⟨a, ha, hname⟩
      obtain ⟨a, ha, hname⟩ := h
      rcases List.mem_cons.mp ha with rfl | ha
      · exact ⟨[], a.2, others, by rw [← hname]; rfl, hnone⟩
      · exact absurd hname (hnone a ha)

/-- Over an empty store, the entries are the assigned names with the values assigned last. -/
theorem mem_entries (h : context.Executes as made final) (hempty : context.store = .empty) {name : String}
    {value : Value} :
    (name, value) ∈ final.store.entries ↔
      ∃ before after, made = before ++ (name, value) :: after ∧ ∀ a ∈ after, a.1 ≠ name := by
  rw [Store.mem_entries, h.get?_eq_some, hempty]
  simp

theorem mem_map_entries (h : context.Executes as made final) (hempty : context.store = .empty) {name : String} :
    name ∈ final.store.entries.map Prod.fst ↔ ∃ a ∈ as, a.target = name := by
  have htarget : (∃ a ∈ as, a.target = name) ↔ ∃ a ∈ made, a.1 = name := by
    rw [← List.mem_map, ← List.mem_map, h.map_fst]
  rw [htarget, List.mem_map]
  constructor
  · rintro ⟨⟨_, value⟩, hmem, rfl⟩
    obtain ⟨before, after, rfl, -⟩ := (h.mem_entries hempty).mp hmem
    exact ⟨_, List.mem_append_right _ List.mem_cons_self, rfl⟩
  · intro hmade
    obtain ⟨before, value, after, hsplit, hafter⟩ := exists_last hmade
    exact ⟨(name, value), (h.mem_entries hempty).mpr ⟨before, after, hsplit, hafter⟩, rfl⟩

end Context.Executes

/-- Declarations do not touch the store. -/
theorem Context.store_foldl_declare (names : List String) (context : Context) :
    (names.foldl Context.declare context).store = context.store := by
  induction names generalizing context with
  | nil => rfl
  | cons name names ih => exact ih (context.declare name)

theorem Context.mem_declared_foldl {name : String} {names : List String} {context : Context} :
    name ∈ (names.foldl Context.declare context).declared ↔ name ∈ context.declared ∨ name ∈ names := by
  induction names generalizing context with
  | nil => simp
  | cons first others ih =>
    rw [List.foldl_cons, ih, Context.declare, List.mem_insert_iff, List.mem_cons, or_comm (a := name = first), or_assoc]

/-- A successful run executes all assignments of its program, and leaves the store that they leave. -/
theorem exists_executes_of_runProgram {source : String} {report : Report} (h : runProgram source = .ok report) :
    ∃ tokens tree made final, tokenize source = .ok tokens ∧ parseProgram tokens = .ok tree ∧
      (tree.block.variableNames.foldl Context.declare (.ofStore .empty)).Executes tree.block.assignments made final ∧
      report.result = made.getLast?.map Prod.snd ∧ report.store = final.store := by
  obtain ⟨tokens, tree, htokens, htree, -, hresult, hstore⟩ := runProgram_eq_ok.mp h
  rw [Evaluation.runProgram_apply, Evaluation.runBlock_apply] at hresult hstore
  obtain ⟨made, hmade, hlast, -⟩ := Evaluation.runAssignments_eq_ok.mp (by rw [← hresult])
  exact ⟨tokens, tree, made, _, htokens, htree, hmade, hlast, hstore.symm⟩

/-- **Running a block is running its flat list of assignments**, in result, store and log, up to the first value that
fails; and a program leaves its targets, in the order of their bytes, each with the value assigned to it last. -/
theorem runBlock_flat :
    (∀ (context : Context) (block : Block),
      let started := block.variableNames.foldl Context.declare context
      (∀ result final events, Evaluation.runBlock block context = ⟨.ok result, final, events⟩ ↔
        ∃ made, started.Executes block.assignments made final ∧ result = made.getLast?.map Prod.snd ∧
          (result = none ↔ block.assignments = []) ∧
          events = block.procedureNames.map .skipped ++ made.map fun a => .assigned a.1 a.2) ∧
      ∀ e final events, Evaluation.runBlock block context = ⟨.error e, final, events⟩ ↔
        ∃ before a after made, block.assignments = before ++ a :: after ∧ started.Executes before made final ∧
          final.eval a.value = .error e ∧
          events = block.procedureNames.map .skipped ++ made.map fun a => .assigned a.1 a.2) ∧
    (∀ name value, (Event.assigned name value).message = "assign " ++ name ++ " := " ++ value.text) ∧
    ∀ source report, runProgram source = .ok report →
      ∃ tokens tree made final, tokenize source = .ok tokens ∧ parseProgram tokens = .ok tree ∧
        (tree.block.variableNames.foldl Context.declare (.ofStore .empty)).Executes tree.block.assignments made final ∧
        report.result = made.getLast?.map Prod.snd ∧
        report.store.entries.Pairwise (textBytes ·.1 < textBytes ·.1) ∧
        (∀ name, name ∈ report.store.entries.map Prod.fst ↔ ∃ a ∈ tree.block.assignments, a.target = name) ∧
        ∀ name value, (name, value) ∈ report.store.entries ↔
          ∃ before after, made = before ++ (name, value) :: after ∧ ∀ a ∈ after, a.1 ≠ name := by
  refine ⟨fun context block => ⟨fun result final events => ?_, fun e final events => ?_⟩, fun _ _ => rfl,
    fun source report h => ?_⟩
  · rw [Evaluation.runBlock_eq_iff]
    constructor
    · rintro ⟨later, hrun, rfl⟩
      obtain ⟨made, hmade, rfl, rfl⟩ := Evaluation.runAssignments_eq_ok.mp hrun
      exact ⟨made, hmade, rfl, hmade.getLast?_eq_none, rfl⟩
    · rintro ⟨made, hmade, rfl, -, rfl⟩
      exact ⟨_, Evaluation.runAssignments_of_executes hmade, rfl⟩
  · rw [Evaluation.runBlock_eq_iff]
    constructor
    · rintro ⟨later, hrun, rfl⟩
      obtain ⟨before, a, after, made, hsplit, hmade, he, rfl⟩ := Evaluation.runAssignments_eq_error.mp hrun
      exact ⟨before, a, after, made, hsplit, hmade, he, rfl⟩
    · rintro ⟨before, a, after, made, hsplit, hmade, he, rfl⟩
      exact ⟨_, by rw [hsplit]; exact Evaluation.runAssignments_of_stops hmade he, rfl⟩
  · obtain ⟨tokens, tree, made, final, htokens, htree, hmade, hresult, hstore⟩ := exists_executes_of_runProgram h
    have hempty := Context.store_foldl_declare tree.block.variableNames (.ofStore .empty)
    rw [hstore]
    exact ⟨tokens, tree, made, final, htokens, htree, hmade, hresult, final.store.ascending_bytes,
      fun _ => hmade.mem_map_entries hempty, fun _ _ => hmade.mem_entries hempty⟩

/-- An assignment follows a nested one and an empty compound, and a variable is assigned twice. -/
theorem runBlock_flat_nested :
    let source := "program p; var x, y: integer; begin y := 1; begin begin x := y end end; y := x + 1; begin end end."
    ∃ report, runProgram source = .ok report ∧ report.result = some (.integer 2) ∧
      report.store.entries = [("x", .integer 1), ("y", .integer 2)] ∧
      ∃ tokens tree, tokenize source = .ok tokens ∧ parseProgram tokens = .ok tree ∧
        ∀ name ∈ ["x", "y"], ∃ a ∈ tree.block.assignments, a.target = name := by
  intro source
  have hreport : (runProgram source).toOption.map (fun report => (report.result, report.store.entries)) =
      some (some (.integer 2), [("x", .integer 1), ("y", .integer 2)]) := by decide +kernel
  cases hrun : runProgram source with
  | error fault =>
    rw [hrun] at hreport
    cases hreport
  | ok report =>
    rw [hrun] at hreport
    obtain ⟨hresult, hentries⟩ := Prod.mk.inj (Option.some.inj hreport)
    obtain ⟨tokens, tree, _, _, htokens, htree, -, -, -, hnames, -⟩ := runBlock_flat.2.2 source report hrun
    refine ⟨report, rfl, hresult, hentries, tokens, tree, htokens, htree, fun name hname => (hnames name).mp ?_⟩
    rw [hentries]
    exact hname

end MiniPascal
