import MiniPascal.Proofs.Analysis.Scopes

/-!
# The log of an analysis

An analysis reports the scopes that it enters and leaves and the symbols that it declares. The reports are made in
different places: a declaration reports its symbol, a procedure the opening and the closing of its scope, and a fault
may end the walk anywhere between the two. Still the log is one bracketing (`Bracketed`), because every walk reports
exactly what it adds to the current scope (`Analysis.Reports`).

* `Analysis.events_checkProgram`: the log of a program, whether it is sound or not.
-/

namespace MiniPascal

/-- The log of what is done in the scope `title`. A scope that is entered is left again, under its name and with the
symbols that were declared in it; `symbols` are those declared in the scope `title` itself. -/
inductive Bracketed : String → List Event → List Symbol → Prop
  | nil {title : String} : Bracketed title [] []
  | lookedUp {title name scope : String} {events : List Event} {symbols : List Symbol} :
      Bracketed title events symbols → Bracketed title (.lookedUp name scope :: events) symbols
  | defined {title : String} {symbol : Symbol} {events : List Event} {symbols : List Symbol} :
      Bracketed title events symbols → Bracketed title (.defined symbol title :: events) (symbol :: symbols)
  | scope {title : String} {closed : Scope} {inner events : List Event} {symbols : List Symbol} :
      Bracketed closed.name inner closed.symbols → Bracketed title events symbols →
      Bracketed title (.entered closed.name :: (inner ++ .left closed :: events)) symbols

namespace Bracketed

variable {title : String} {events later : List Event} {symbols others : List Symbol}

theorem append (h : Bracketed title events symbols) (hlater : Bracketed title later others) :
    Bracketed title (events ++ later) (symbols ++ others) := by
  induction h with
  | nil => exact hlater
  | lookedUp _ ih => exact .lookedUp (ih hlater)
  | defined _ ih => exact .defined (ih hlater)
  | @scope _ closed inner events symbols hinner _ _ ih =>
    have hscope := Bracketed.scope hinner (ih hlater)
    simpa using hscope

/-- Looking names up declares nothing. -/
theorem lookups (name : String) (scopes : List Scope) : Bracketed title (scopes.map (.lookedUp name ·.name)) [] := by
  induction scopes with
  | nil => exact .nil
  | cons first others ih => exact .lookedUp ih

end Bracketed

namespace Analysis

variable {α β : Type}

/-! ## Walks -/

/-- The walk reports what it does in the current scope: it adds the symbols that it reports. -/
def Reports (x : Analysis α) : Prop :=
  ∀ scopes, ∃ symbols, (x scopes).state = scopes.adding symbols ∧
    Bracketed scopes.current.name (x scopes).events symbols

theorem reports_of_lookups {x : Analysis α} (hstate : Preserves x)
    (hevents : ∀ scopes, Bracketed scopes.current.name (x scopes).events []) : Reports x := by
  intro scopes
  refine ⟨[], ?_, hevents scopes⟩
  rw [hstate, Scopes.adding_nil]

/-- The second walk goes on in the scope that the first one has added to. -/
theorem Reports.bind {x : Analysis α} {f : α → Analysis β} (hx : Reports x) (hf : ∀ a, Reports (f a)) :
    Reports (x >>= f) := by
  intro scopes
  obtain ⟨symbols, hstate, hevents⟩ := hx scopes
  rw [Traced.bind_apply]
  cases (x scopes).result with
  | error e => exact ⟨symbols, hstate, hevents⟩
  | ok a =>
    obtain ⟨others, hstate', hevents'⟩ := hf a (scopes.adding symbols)
    rw [hstate]
    refine ⟨symbols ++ others, ?_, hevents.append hevents'⟩
    rw [hstate', Scopes.adding_adding]

theorem events_define (symbol : Symbol) (line : Nat) (scopes : Scopes) :
    (define symbol line scopes).events =
      if (scopes.current.get? symbol.name).isSome then [] else [.defined symbol scopes.current.name] := by
  unfold define Scopes.define
  by_cases h : (scopes.current.get? symbol.name).isSome
  · simp [h]
  · simp [h]

/-- A declaration that fails is not reported. -/
theorem reports_define (symbol : Symbol) (line : Nat) : Reports (define symbol line) := by
  intro scopes
  rw [state_define, events_define]
  split
  · exact ⟨[], (Scopes.adding_nil scopes).symm, .nil⟩
  · exact ⟨[symbol], rfl, .defined .nil⟩

theorem events_inScope {walk : Analysis α} {name : String} {scopes outer : Scopes} {closed : Scope}
    (hleave : (walk (scopes.enter name)).state.leave? = some (closed, outer)) :
    (inScope name walk scopes).events = .entered name :: ((walk (scopes.enter name)).events ++ [.left closed]) := by
  simp only [inScope, Traced.bind_apply, Traced.modify, Traced.emit, Traced.ensuring_apply, hleave]
  rfl

/-- However the walk inside ends, its scope is reported as entered and as left, with what the walk has added. -/
theorem reports_inScope {walk : Analysis α} (hwalk : Reports walk) (name : String) : Reports (inScope name walk) := by
  have honly : OnlyAdds walk := by
    intro scopes
    obtain ⟨symbols, hstate, -⟩ := hwalk scopes
    exact ⟨symbols, hstate⟩
  refine reports_of_lookups (preserves_inScope honly name) fun scopes => ?_
  obtain ⟨symbols, hstate, hevents⟩ := hwalk (scopes.enter name)
  rw [events_inScope (by rw [hstate]; rfl)]
  exact @Bracketed.scope _ ((scopes.enter name).adding symbols).current _ _ _ hevents .nil

theorem walkClosed_reports : WalkClosed Reports where
  pure a := reports_of_lookups (referenceClosed_preserves.pure a) fun _ => .nil
  fail e := reports_of_lookups (referenceClosed_preserves.fail e) fun _ => .nil
  lookup name := reports_of_lookups (referenceClosed_preserves.lookup name) fun _ => .lookups name _
  bind := Reports.bind
  define := reports_define
  inScope name hwalk := reports_inScope hwalk name

/-! ## Programs -/

/-- The outermost scope is entered first, and left at the end of a sound program. -/
theorem events_checkProgram_eq (program : Program) (scopes : Scopes) :
    (checkProgram program scopes).events =
      .entered globalName :: ((checkBlock program.block scopes).events ++
        match (checkProgram program scopes).result with
        | .ok _ => [.left (checkBlock program.block scopes).state.current]
        | .error _ => []) := by
  rw [result_checkProgram]
  simp only [checkProgram, Traced.bind_apply, Traced.emit, Traced.get]
  cases (checkBlock program.block scopes).result <;> simp

/-- **The log is faithful**: between the opening of the outermost scope and its end, every scope that is entered is left
under the same name, with a table of the symbols that were reported as declared in it, in their order. Only a program
with a fault does not leave the outermost scope, which holds the built-in types and the symbols reported there. -/
theorem events_checkProgram (program : Program) :
    (∃ events symbols, Bracketed "global" events symbols ∧
      (checkProgram program start).state.current.symbols =
        [.builtinType "integer", .builtinType "real"] ++ symbols ∧
      (checkProgram program start).events =
        .entered "global" :: (events ++
          match (checkProgram program start).result with
          | .ok _ => [.left ⟨"global", 1, none, [.builtinType "integer", .builtinType "real"] ++ symbols⟩]
          | .error _ => [])) ∧
    (∀ name, (Event.entered name).message = "Enter scope: " ++ name) ∧
    (∀ symbol scope, (Event.defined symbol scope).message =
      "Define: " ++ symbol.text ++ " in scope '" ++ scope ++ "'") ∧
    ∀ scope, (Event.left scope).message = "Leave scope: " ++ scope.name ++ "\n" ++
      String.intercalate "\n" (
        ["SCOPE (SCOPED SYMBOL TABLE)", "===========================", "Scope name : " ++ scope.name,
          "Scope level: " ++ toString scope.level, "Scope (Scoped symbol table) contents",
          "------------------------------------"] ++
        scope.symbols.map fun symbol => Scope.alignRight 7 symbol.name ++ ": " ++ symbol.text) := by
  refine ⟨?_, fun _ => rfl, fun _ _ => rfl, fun _ => rfl⟩
  obtain ⟨symbols, hstate, hevents⟩ := walkClosed_reports.checkBlock program.block start
  have hcurrent : (start.adding symbols).current =
      ⟨"global", 1, none, [.builtinType "integer", .builtinType "real"] ++ symbols⟩ := rfl
  refine ⟨_, symbols, hevents, ?_, ?_⟩
  · rw [state_checkProgram, hstate, hcurrent]
  · rw [events_checkProgram_eq, hstate, hcurrent]
    rfl

/-- Two scopes have the same name, one in the other, and the fault lies in the inner one. -/
example :
    let inner : Declaration := .procedure "p" [⟨"x", ⟨.real, 2⟩, 2⟩] ⟨[.variable ⟨"x", ⟨.real, 3⟩, 3⟩], []⟩ 2
    let outer : Declaration := .procedure "p" [] ⟨[inner], []⟩ 1
    let x : VariableSymbol := ⟨"x", "real"⟩
    (checkProgram ⟨"q", ⟨[outer], []⟩, 1⟩ start).events.filter (·.level = .debug) =
      [.entered "global", .entered "p", .entered "p", .left ⟨"p", 3, some 1, [.variable x]⟩,
        .left ⟨"p", 2, some 0, [.procedure "p" [x]]⟩] := by
  decide

end Analysis

end MiniPascal
