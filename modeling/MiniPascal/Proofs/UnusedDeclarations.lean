import MiniPascal.Proofs.Analysis.Lexical
import MiniPascal.Proofs.Evaluation.Assignments

/-!
# Unused declarations

Procedures are never run and a variable that no body names is never looked up, so both can be left out of a sound
program (`Program.Prunes`), at any depth. A declaration that is left out may have hidden another one of its name. But in
a sound program a name that a body uses is that of a variable, in the innermost frame that has it, and this frame keeps
it; the frames further in, which did not have the name, do not get it (`Lexical.Slimmer`).

* `Lexical.checkDeclarations_of_prunes`: the declarations that are left are sound, and declare what is needed.
* `run_of_prunes`: analysis and evaluation of what is left.
-/

namespace MiniPascal

/-! ## Used names -/

mutual

/-- What the bodies of procedures read and write, at any depth. -/
def Declaration.accesses : Declaration → List Access
  | .variable _ => []
  | .procedure _ _ ⟨declarations, body⟩ _ => Declaration.allAccesses declarations ++ Statement.allAccesses body

def Declaration.allAccesses : List Declaration → List Access
  | [] => []
  | first :: others => first.accesses ++ Declaration.allAccesses others

end

/-- All that the program reads and writes, in its own body and in those of its procedures. -/
def Program.accesses (p : Program) : List Access :=
  Declaration.allAccesses p.block.declarations ++ Statement.allAccesses p.block.body

/-- The name is assigned or read somewhere in the program. -/
def Program.Uses (p : Program) (name : String) : Prop := ∃ a ∈ p.accesses, a.name = name

/-! ## Left out declarations -/

/-- The second list is the first one without some procedures and without some variables that are not used; the same may
be done to the declarations of the procedures that stay. -/
inductive Declaration.Prunes (used : String → Prop) : List Declaration → List Declaration → Prop
  | nil : Prunes used [] []
  | keepVariable (declared : TypedName) {ds ds' : List Declaration} : Prunes used ds ds' →
      Prunes used (.variable declared :: ds) (.variable declared :: ds')
  | dropVariable {declared : TypedName} {ds ds' : List Declaration} : ¬ used declared.name → Prunes used ds ds' →
      Prunes used (.variable declared :: ds) ds'
  | keepProcedure (name : String) (parameters : List TypedName) (body : List Statement) (line : Nat)
      {inner inner' ds ds' : List Declaration} : Prunes used inner inner' → Prunes used ds ds' →
      Prunes used (.procedure name parameters ⟨inner, body⟩ line :: ds)
        (.procedure name parameters ⟨inner', body⟩ line :: ds')
  | dropProcedure (name : String) (parameters : List TypedName) (block : Block) (line : Nat)
      {ds ds' : List Declaration} : Prunes used ds ds' → Prunes used (.procedure name parameters block line :: ds) ds'

/-- The second program is the first one without some procedures and some unused variables. -/
structure Program.Prunes (p p' : Program) : Prop where
  name : p'.name = p.name
  declarations : Declaration.Prunes p.Uses p.block.declarations p'.block.declarations
  body : p'.block.body = p.block.body
  line : p'.line = p.line

/-! ## Scoping -/

namespace Lexical

/-! ### What sound references say -/

section References

variable {frames : List Frame}

theorem checkExpr_eq_ok_iff : ∀ {e : Expr},
    checkExpr frames e = .ok () ↔ ∀ a ∈ e.accesses, meaning? frames a.name = some .variable
  | .literal _ _ => by simp [checkExpr, Expr.accesses]
  | .variable name line => by
    rw [checkExpr, requireVariable_eq_ok_iff]
    simp [Expr.accesses, Access.name]
  | .unary _ operand _ => by rw [checkExpr, checkExpr_eq_ok_iff, Expr.accesses]
  | .binary _ left right _ => by
    rw [checkExpr, check_bind_eq_ok, checkExpr_eq_ok_iff (e := left), checkExpr_eq_ok_iff (e := right), Expr.accesses,
      List.forall_mem_append]

mutual

theorem checkStatement_eq_ok_iff : ∀ {s : Statement},
    checkStatement frames s = .ok () ↔ ∀ a ∈ s.accesses, meaning? frames a.name = some .variable
  | .compound children => by rw [checkStatement, checkStatements_eq_ok_iff, Statement.accesses]
  | .assign target line value _ => by
    rw [checkStatement, check_bind_eq_ok, requireVariable_eq_ok_iff, checkExpr_eq_ok_iff, Statement.accesses,
      List.forall_mem_append, List.forall_mem_singleton, and_comm]
    rfl
  | .skip => by simp [checkStatement, Statement.accesses]

theorem checkStatements_eq_ok_iff : ∀ {ss : List Statement},
    checkStatements frames ss = .ok () ↔ ∀ a ∈ Statement.allAccesses ss, meaning? frames a.name = some .variable
  | [] => by simp [checkStatements, Statement.allAccesses]
  | first :: others => by
    rw [checkStatements, check_bind_eq_ok, checkStatement_eq_ok_iff (s := first), checkStatements_eq_ok_iff,
      Statement.allAccesses, List.forall_mem_append]

end

end References

/-! ### Frames with fewer names -/

/-- What is not left out: the types, and the variables that are used. -/
def Meaning.Needed (used : String → Prop) (name : String) : Meaning → Prop
  | type => True
  | .variable => used name
  | procedure => False

/-- The frame `own'` has no name that `own` lacks, and in sight of `outer'` all that is needed is what it was in sight
of `outer`. -/
structure Slimmer (used : String → Prop) (own own' : Frame) (outer outer' : List Frame) : Prop where
  free : ∀ name, own.meaning? name = none → own'.meaning? name = none
  kept : ∀ name meaning, meaning.Needed used name → meaning? (own :: outer) name = some meaning →
    meaning? (own' :: outer') name = some meaning

namespace Slimmer

variable {used : String → Prop} {own own' : Frame} {outer outer' : List Frame}

theorem refl (used : String → Prop) (own : Frame) (outer : List Frame) : Slimmer used own own outer outer :=
  ⟨fun _ h => h, fun _ _ _ h => h⟩

/-- What a frame has hides what stands around it, and of what it has not, nothing that is needed is lost. -/
theorem within (h : Slimmer used own own' outer outer') (inner : Frame) :
    Slimmer used inner inner (own :: outer) (own' :: outer') where
  free _ hname := hname
  kept name meaning hneeded hname := by
    rw [meaning?] at hname ⊢
    cases hinner : inner.meaning? name with
    | some _ => rwa [hinner] at hname
    | none =>
      rw [hinner] at hname
      exact h.kept name meaning hneeded hname

/-- A name that can be declared in a frame can be declared in one with fewer names. -/
theorem declare (h : Slimmer used own own' outer outer') {name : String} {meaning : Meaning} {line : Nat} {next : Frame}
    (hdeclare : own.declare name meaning line = .ok next) :
    ∃ next', own'.declare name meaning line = .ok next' ∧ Slimmer used next next' outer outer' := by
  have hfree := h.free name (Frame.declare_eq_ok_iff.mp hdeclare).1
  have hdeclare' : own'.declare name meaning line = .ok { own' with names := own'.names ++ [(name, meaning)] } :=
    Frame.declare_eq_ok_iff.mpr ⟨hfree, rfl⟩
  refine ⟨_, hdeclare', fun other hother => ?_, fun other meaning' hneeded hother => ?_⟩
  · rw [Frame.meaning?_of_declare hdeclare] at hother
    rw [Frame.meaning?_of_declare hdeclare']
    split at hother
    · cases hother
    next hne => rw [if_neg hne, h.free other hother]
  · rw [meaning?_of_declare hdeclare] at hother
    rw [meaning?_of_declare hdeclare']
    split at hother
    next heq => rw [if_pos heq, hother]
    next hne => rw [if_neg hne, h.kept other meaning' hneeded hother]

/-- A declaration that is not needed may be left out. -/
theorem skip (h : Slimmer used own own' outer outer') {name : String} {meaning : Meaning} {line : Nat} {next : Frame}
    (hdeclare : own.declare name meaning line = .ok next) (hneedless : ¬ meaning.Needed used name) :
    Slimmer used next own' outer outer' where
  free other hother := by
    rw [Frame.meaning?_of_declare hdeclare] at hother
    split at hother
    · cases hother
    · exact h.free other hother
  kept other meaning' hneeded hother := by
    rw [meaning?_of_declare hdeclare] at hother
    split at hother
    next heq =>
      cases hother
      exact absurd (heq ▸ hneeded) hneedless
    next => exact h.kept other meaning' hneeded hother

theorem requireType (h : Slimmer used own own' outer outer') {type : TypeSpec}
    (htype : requireType (own :: outer) type = .ok ()) : Lexical.requireType (own' :: outer') type = .ok () :=
  requireType_eq_ok_iff.mpr (h.kept _ _ trivial (requireType_eq_ok_iff.mp htype))

theorem requireTypes (h : Slimmer used own own' outer outer') {ps : List TypedName}
    (htypes : requireTypes (own :: outer) ps = .ok ()) : Lexical.requireTypes (own' :: outer') ps = .ok () :=
  requireTypes_eq_ok_iff.mpr fun p hp => h.kept _ _ trivial (requireTypes_eq_ok_iff.mp htypes p hp)

theorem checkStatements (h : Slimmer used own own' outer outer') {ss : List Statement}
    (hused : ∀ a ∈ Statement.allAccesses ss, used a.name) (hsound : checkStatements (own :: outer) ss = .ok ()) :
    Lexical.checkStatements (own' :: outer') ss = .ok () :=
  checkStatements_eq_ok_iff.mpr fun a ha => h.kept _ _ (hused a ha) (checkStatements_eq_ok_iff.mp hsound a ha)

end Slimmer

/-! ### Declarations -/

theorem checkProcedure_eq_ok_iff {outer : List Frame} {own last : Frame} {name : String} {parameters : List TypedName}
    {declarations : List Declaration} {body : List Statement} {line : Nat} :
    checkDeclaration outer own (.procedure name parameters ⟨declarations, body⟩ line) = .ok last ↔
      requireTypes (own :: outer) parameters = .ok () ∧ own.declare name .procedure line = .ok last ∧
        ∃ inner inner', declareParameters ⟨name, []⟩ parameters = .ok inner ∧
          checkDeclarations (last :: outer) inner declarations = .ok inner' ∧
          checkStatements (inner' :: last :: outer) body = .ok () := by
  rw [checkDeclaration]
  simp only [bind_eq_ok]
  constructor
  · rintro ⟨_, htypes, last', hdeclare, inner, hparameters, inner', hdeclarations, _, hbody, hlast⟩
    cases hlast
    exact ⟨htypes, hdeclare, inner, inner', hparameters, hdeclarations, hbody⟩
  · rintro ⟨htypes, hdeclare, inner, inner', hparameters, hdeclarations, hbody⟩
    exact ⟨(), htypes, last, hdeclare, inner, hparameters, inner', hdeclarations, (), hbody, rfl⟩

theorem checkDeclarations_cons_eq_ok_iff {outer : List Frame} {own last : Frame} {d : Declaration}
    {ds : List Declaration} :
    checkDeclarations outer own (d :: ds) = .ok last ↔
      ∃ next, checkDeclaration outer own d = .ok next ∧ checkDeclarations outer next ds = .ok last := by
  rw [checkDeclarations, bind_eq_ok]

theorem checkVariable_eq_ok_iff {outer : List Frame} {own last : Frame} {declared : TypedName} :
    checkDeclaration outer own (.variable declared) = .ok last ↔
      requireType (own :: outer) declared.type = .ok () ∧
        own.declare declared.name .variable declared.line = .ok last := by
  rw [checkDeclaration, check_bind_eq_ok]

/-- What is left of sound declarations is sound, and declares all that is used. -/
theorem checkDeclarations_of_prunes {used : String → Prop} {ds ds' : List Declaration}
    (h : Declaration.Prunes used ds ds') {outer outer' : List Frame} {own own' last : Frame}
    (hframes : Slimmer used own own' outer outer') (hused : ∀ a ∈ Declaration.allAccesses ds, used a.name)
    (hsound : checkDeclarations outer own ds = .ok last) :
    ∃ last', checkDeclarations outer' own' ds' = .ok last' ∧ Slimmer used last last' outer outer' := by
  induction h generalizing outer outer' own own' last with
  | nil =>
    rw [checkDeclarations] at hsound ⊢
    cases hsound
    exact ⟨own', rfl, hframes⟩
  | keepVariable declared _ ih =>
    rw [Declaration.allAccesses, Declaration.accesses, List.nil_append] at hused
    obtain ⟨next, hfirst, hothers⟩ := checkDeclarations_cons_eq_ok_iff.mp hsound
    obtain ⟨htype, hdeclare⟩ := checkVariable_eq_ok_iff.mp hfirst
    obtain ⟨next', hdeclare', hnext⟩ := hframes.declare hdeclare
    obtain ⟨last', hothers', hlast⟩ := ih hnext hused hothers
    have hfirst' := checkVariable_eq_ok_iff.mpr ⟨hframes.requireType htype, hdeclare'⟩
    exact ⟨last', checkDeclarations_cons_eq_ok_iff.mpr ⟨next', hfirst', hothers'⟩, hlast⟩
  | dropVariable hunused _ ih =>
    rw [Declaration.allAccesses, Declaration.accesses, List.nil_append] at hused
    obtain ⟨next, hfirst, hothers⟩ := checkDeclarations_cons_eq_ok_iff.mp hsound
    obtain ⟨-, hdeclare⟩ := checkVariable_eq_ok_iff.mp hfirst
    exact ih (hframes.skip hdeclare hunused) hused hothers
  | keepProcedure name parameters body line _ _ ihinner ih =>
    rw [Declaration.allAccesses, Declaration.accesses, List.forall_mem_append, List.forall_mem_append] at hused
    obtain ⟨⟨husedInner, husedBody⟩, husedOthers⟩ := hused
    obtain ⟨next, hfirst, hothers⟩ := checkDeclarations_cons_eq_ok_iff.mp hsound
    obtain ⟨htypes, hdeclare, start, inner, hparameters, hinner, hbody⟩ := checkProcedure_eq_ok_iff.mp hfirst
    obtain ⟨next', hdeclare', hnext⟩ := hframes.declare hdeclare
    -- the procedure starts with its parameters on both sides, and only what stands around it has become less
    obtain ⟨inner', hinner', hslimmer⟩ := ihinner (hnext.within start) husedInner hinner
    obtain ⟨last', hothers', hlast⟩ := ih hnext husedOthers hothers
    have hfirst' := checkProcedure_eq_ok_iff.mpr ⟨hframes.requireTypes htypes, hdeclare', start, inner', hparameters,
      hinner', hslimmer.checkStatements husedBody hbody⟩
    exact ⟨last', checkDeclarations_cons_eq_ok_iff.mpr ⟨next', hfirst', hothers'⟩, hlast⟩
  | dropProcedure name parameters block line _ ih =>
    rw [Declaration.allAccesses, List.forall_mem_append] at hused
    obtain ⟨declarations, body⟩ := block
    obtain ⟨next, hfirst, hothers⟩ := checkDeclarations_cons_eq_ok_iff.mp hsound
    obtain ⟨-, hdeclare, -⟩ := checkProcedure_eq_ok_iff.mp hfirst
    exact ih (hframes.skip hdeclare id) hused.2 hothers

end Lexical

theorem Program.mem_uses {p : Program} :
    (∀ a ∈ Declaration.allAccesses p.block.declarations, p.Uses a.name) ∧
      ∀ a ∈ Statement.allAccesses p.block.body, p.Uses a.name :=
  ⟨fun a ha => ⟨a, List.mem_append_left _ ha, rfl⟩, fun a ha => ⟨a, List.mem_append_right _ ha, rfl⟩⟩

theorem Analysis.result_checkProgram_of_prunes {p p' : Program} (h : p.Prunes p')
    (hsound : (checkProgram p start).result = .ok ()) : (checkProgram p' start).result = .ok () := by
  rw [result_checkProgram, result_checkBlock_eq_lexical] at hsound ⊢
  obtain ⟨own, hdeclarations, hbody⟩ := Lexical.bind_eq_ok.mp hsound
  obtain ⟨own', hdeclarations', hslimmer⟩ := Lexical.checkDeclarations_of_prunes h.declarations
    (.refl p.Uses start.current.frame _) Program.mem_uses.1 hdeclarations
  refine Lexical.bind_eq_ok.mpr ⟨own', hdeclarations', ?_⟩
  rw [h.body]
  exact hslimmer.checkStatements Program.mem_uses.2 hbody

/-! ## Evaluation -/

/-- The contexts hold the same values, and the same of the used names are declared. -/
structure Context.AgreeOn (used : String → Prop) (context context' : Context) : Prop where
  store : context'.store = context.store
  declared : ∀ name, used name → (name ∈ context'.declared ↔ name ∈ context.declared)

namespace Context.AgreeOn

variable {used : String → Prop} {context context' : Context}

theorem assign (h : AgreeOn used context context') (name : String) (value : Value) :
    AgreeOn used (context.assign name value) (context'.assign name value) :=
  ⟨congrArg (·.assign name value) h.store, h.declared⟩

theorem read (h : AgreeOn used context context') {name : String} (hname : used name) (line : Nat) :
    context'.read name line = context.read name line := by
  simp only [Context.read, h.store, h.declared name hname]

theorem eval (h : AgreeOn used context context') {e : Expr} (he : ∀ a ∈ e.accesses, used a.name) :
    context'.eval e = context.eval e :=
  eval_congr fun _ line hread => h.read (he _ hread) line

end Context.AgreeOn

namespace Evaluation

theorem runAssignments_of_agreeOn {used : String → Prop} {context context' : Context}
    (h : context.AgreeOn used context') {as : List Assignment}
    (has : ∀ a ∈ as.flatMap Assignment.accesses, used a.name) :
    (runAssignments as context').result = (runAssignments as context).result ∧
      (runAssignments as context').state.store = (runAssignments as context).state.store := by
  induction as generalizing context context' with
  | nil => exact ⟨rfl, h.store⟩
  | cons a others ih =>
    rw [List.flatMap_cons, Assignment.accesses, List.forall_mem_append, List.forall_mem_append] at has
    have heval := h.eval has.1.1
    cases hvalue : context.eval a.value with
    | error e =>
      rw [hvalue] at heval
      rw [runAssignments_cons_of_error hvalue, runAssignments_cons_of_error heval]
      exact ⟨rfl, h.store⟩
    | ok value =>
      rw [hvalue] at heval
      rw [runAssignments_cons_of_ok hvalue, runAssignments_cons_of_ok heval]
      obtain ⟨hresult, hstore⟩ := ih (h.assign a.target value) has.2
      exact ⟨congrArg (Except.map (·.or (some value))) hresult, hstore⟩

end Evaluation

/-- The variables of the outer block that are used stay. -/
theorem Declaration.mem_variableNames_of_prunes {used : String → Prop} {ds ds' : List Declaration}
    (h : Prunes used ds ds') {name : String} (hname : used name) :
    name ∈ ds'.filterMap variableName? ↔ name ∈ ds.filterMap variableName? := by
  induction h with
  | nil => rfl
  | keepVariable declared _ ih =>
    simp only [List.filterMap_cons, variableName?, List.mem_cons, ih]
  | @dropVariable declared _ _ hunused _ ih =>
    have hne : name ≠ declared.name := fun heq => hunused (heq ▸ hname)
    simp only [List.filterMap_cons, variableName?, List.mem_cons, or_iff_right hne, ih]
  | keepProcedure _ _ _ _ _ _ _ ih => simp only [List.filterMap_cons, variableName?, ih]
  | dropProcedure _ _ _ _ _ ih => simp only [List.filterMap_cons, variableName?, ih]

theorem Program.Prunes.agreeOn {p p' : Program} (h : p.Prunes p') (context : Context) :
    (p.block.variableNames.foldl Context.declare context).AgreeOn p.Uses
      (p'.block.variableNames.foldl Context.declare context) where
  store := by rw [Context.store_foldl_declare, Context.store_foldl_declare]
  declared name hname := by
    rw [Context.mem_declared_foldl, Context.mem_declared_foldl]
    exact or_congr_right (Declaration.mem_variableNames_of_prunes h.declarations hname)

/-! ## Both -/

/-- **Unused declarations can be left out** of a sound program: any procedures, and any variables that no body names.
What is left is sound, and evaluates to the same value or to the same fault, with the same variables. -/
theorem run_of_prunes {p p' : Program} (h : p.Prunes p')
    (hsound : (Analysis.checkProgram p Analysis.start).result = .ok ()) :
    (Analysis.checkProgram p' Analysis.start).result = .ok () ∧
      let run := Evaluation.runProgram p (.ofStore .empty)
      let run' := Evaluation.runProgram p' (.ofStore .empty)
      run'.result = run.result ∧ run'.state.store = run.state.store := by
  refine ⟨Analysis.result_checkProgram_of_prunes h hsound, ?_⟩
  have hassignments : p'.block.assignments = p.block.assignments := congrArg Statement.allAssignments h.body
  have hused := (Program.mem_uses (p := p)).2
  rw [Statement.allAccesses_eq] at hused
  rw [Evaluation.runProgram_apply, Evaluation.runProgram_apply, Evaluation.runBlock_apply, Evaluation.runBlock_apply,
    hassignments]
  exact Evaluation.runAssignments_of_agreeOn (h.agreeOn _) hused

/-- Left out are an outer variable and, in the procedure `a`, a procedure that hides the variable `x` and a variable
that hides a type; the fault of the body and what it has assigned before stay. -/
theorem run_of_prunes_hiding :
    let x : TypedName := ⟨"x", ⟨.integer, 1⟩, 1⟩
    let y : TypedName := ⟨"y", ⟨.real, 2⟩, 2⟩
    let hiders : List Declaration := [.procedure "x" [] ⟨[], []⟩ 3, .variable ⟨"integer", ⟨.real, 4⟩, 4⟩]
    let a (inner : List Declaration) : Declaration :=
      .procedure "a" [y] ⟨inner, [.assign "y" 5 (.literal (.integer 1) 5) 5]⟩ 2
    let body : List Statement := [.assign "x" 6 (.literal (.integer 3) 6) 6,
      .assign "x" 7 (.binary .quotient (.variable "x" 7) (.literal (.integer 0) 7) 8) 7]
    let p : Program := ⟨"p", ⟨[.variable x, .variable ⟨"u", ⟨.integer, 1⟩, 1⟩, a hiders], body⟩, 1⟩
    let p' : Program := ⟨"p", ⟨[.variable x, a []], body⟩, 1⟩
    p.Prunes p' ∧ (Analysis.checkProgram p Analysis.start).result = .ok () ∧
      (Analysis.checkProgram p' Analysis.start).result = .ok () ∧
      (Evaluation.runProgram p' (.ofStore .empty)).result = .error (.divisionByZero 8) ∧
      (Evaluation.runProgram p' (.ofStore .empty)).state.store.entries = [("x", .integer 3)] := by
  intro x y hiders a body p p'
  have hunused : ∀ name ∈ ["u", "integer"], ¬ p.Uses name := by
    unfold Program.Uses
    decide
  have hinner : Declaration.Prunes p.Uses hiders [] :=
    .dropProcedure _ _ _ _ (.dropVariable (hunused _ (by decide)) .nil)
  have hprunes : p.Prunes p' :=
    ⟨rfl, .keepVariable x (.dropVariable (hunused _ (by decide)) (.keepProcedure _ _ _ _ hinner .nil)), rfl, rfl⟩
  have hsound : (Analysis.checkProgram p Analysis.start).result = .ok () := rfl
  obtain ⟨hsound', hresult, hstore⟩ := run_of_prunes hprunes hsound
  exact ⟨hprunes, hsound, hsound', hresult.trans rfl, (congrArg Store.entries hstore).trans rfl⟩

end MiniPascal
