import Mathlib.Logic.Equiv.Basic
import MiniPascal.Proofs.Access
import MiniPascal.Proofs.Analysis.Lexical
import MiniPascal.Proofs.Evaluation.Assignments

/-!
# Renaming

Names carry no meaning beyond being equal or different. A renaming keeps different names apart and leaves the types
alone; walking a renamed tree is the same walk with renamed faults. In the rules of scoping the frames around a
declaration matter through the meanings of names only (`Lexical.SameMeanings`), and two contexts are as good as each
other if the names in them correspond (`Context.Renames`).

One name is not in the tree: that of the outermost scope, which stays as it is in a fault about a name declared there
twice (`Program.RepeatsOuterName`). A procedure may have the same name, so the fault alone does not show whether it is
about this scope.

* `run_renamed`: analysis and evaluation of a renamed program.
-/

namespace MiniPascal

/-! ## Renamed trees and faults -/

/-- A change of names that keeps different names apart and leaves the types alone. -/
structure Renaming where
  toFun : String → String
  injective : Function.Injective toFun
  apply_type : ∀ type : TypeName, toFun type.text = type.text

instance : CoeFun Renaming fun _ => String → String := ⟨Renaming.toFun⟩

def Expr.renamed (r : Renaming) : Expr → Expr
  | .literal value line => .literal value line
  | .variable name line => .variable (r name) line
  | .unary op operand line => .unary op (operand.renamed r) line
  | .binary op left right line => .binary op (left.renamed r) (right.renamed r) line

mutual

def Statement.renamed (r : Renaming) : Statement → Statement
  | .compound children => .compound (Statement.allRenamed r children)
  | .assign target targetLine value line => .assign (r target) targetLine (value.renamed r) line
  | .skip => .skip

def Statement.allRenamed (r : Renaming) : List Statement → List Statement
  | [] => []
  | first :: others => first.renamed r :: Statement.allRenamed r others

end

def TypedName.renamed (r : Renaming) (v : TypedName) : TypedName := { v with name := r v.name }

mutual

def Declaration.renamed (r : Renaming) : Declaration → Declaration
  | .variable declared => .variable (declared.renamed r)
  | .procedure name parameters block line =>
    .procedure (r name) (parameters.map (TypedName.renamed r)) (block.renamed r) line

def Block.renamed (r : Renaming) : Block → Block
  | ⟨declarations, body⟩ => ⟨Declaration.allRenamed r declarations, Statement.allRenamed r body⟩

def Declaration.allRenamed (r : Renaming) : List Declaration → List Declaration
  | [] => []
  | first :: others => first.renamed r :: Declaration.allRenamed r others

end

def Program.renamed (r : Renaming) (p : Program) : Program := ⟨r p.name, p.block.renamed r, p.line⟩

/-- The fault with its names changed, and with the name of its scope changed by `title`. -/
def SemanticError.renamed (r : Renaming) (title : String → String) : SemanticError → SemanticError
  | duplicateIdentifier name scope line => duplicateIdentifier (r name) (title scope) line
  | unknownType name line => unknownType (r name) line
  | undeclaredIdentifier name line => undeclaredIdentifier (r name) line
  | notAVariable name line => notAVariable (r name) line

def RuntimeError.renamed (r : Renaming) : RuntimeError → RuntimeError
  | unknownVariable name line => unknownVariable (r name) line
  | unassignedVariable name line => unassignedVariable (r name) line
  | divisionByZero line => divisionByZero line
  | overflow line => overflow line

/-! ## Scoping -/

namespace Lexical

variable {r : Renaming} {title : String → String}

/-- The second outcome is the first one renamed, a result of it being changed by `change`. -/
def Mirrors (r : Renaming) (title : String → String) {α : Type} (change : α → α) (x x' : Except SemanticError α) :
    Prop :=
  x' = (x.mapError (.renamed r title)).map change

theorem Mirrors.bind {α β : Type} {change : α → α} {change' : β → β} {x x' : Except SemanticError α}
    {f f' : α → Except SemanticError β} (hx : Mirrors r title change x x')
    (hf : ∀ a, x = .ok a → Mirrors r title change' (f a) (f' (change a))) :
    Mirrors r title change' (x >>= f) (x' >>= f') := by
  unfold Mirrors at hx
  subst hx
  cases x with
  | error e => rfl
  | ok a => exact hf a rfl

theorem Mirrors.eq_mapError {α : Type} {x x' : Except SemanticError α} (h : Mirrors r title id x x') :
    x' = x.mapError (.renamed r title) := h.trans (congrFun Except.map_id _)

/-- The same names mean the same, up to the renaming. -/
def SameMeanings (r : Renaming) (frames frames' : List Frame) : Prop :=
  ∀ name, meaning? frames' (r name) = meaning? frames name

def Frame.renamed (r : Renaming) (title : String → String) (frame : Frame) : Frame :=
  ⟨title frame.title, frame.names.map fun entry => (r entry.1, entry.2)⟩

theorem Frame.meaning?_renamed (own : Frame) (name : String) :
    (own.renamed r title).meaning? (r name) = own.meaning? name := by
  unfold Frame.meaning? Frame.renamed
  induction own.names with
  | nil => rfl
  | cons entry others ih =>
    have hkey : (r name == r entry.1) = (name == entry.1) := by
      rw [Bool.eq_iff_iff, beq_iff_eq, beq_iff_eq, r.injective.eq_iff]
    rw [List.map_cons, List.lookup_cons, List.lookup_cons, ih, hkey]

variable {frames frames' outer outer' : List Frame} {own : Frame}

theorem SameMeanings.cons (h : SameMeanings r outer outer') (title : String → String) (own : Frame) :
    SameMeanings r (own :: outer) (own.renamed r title :: outer') := by
  intro name
  rw [meaning?, meaning?, Frame.meaning?_renamed, h name]

section References

variable (h : SameMeanings r frames frames')
include h

theorem mirrors_requireType (type : TypeSpec) :
    Mirrors r title id (requireType frames type) (requireType frames' type) := by
  have hmeaning := h type.name.text
  rw [r.apply_type] at hmeaning
  unfold Mirrors requireType
  rw [hmeaning]
  rcases meaning? frames type.name.text with _ | _ | _ | _
  case some.type => rfl
  all_goals simp only [Except.mapError, Except.map, SemanticError.renamed, r.apply_type]

theorem mirrors_requireTypes : ∀ ps : List TypedName,
    Mirrors r title id (requireTypes frames ps) (requireTypes frames' (ps.map (TypedName.renamed r)))
  | [] => rfl
  | first :: others => (mirrors_requireType h first.type).bind fun _ _ => mirrors_requireTypes others

theorem mirrors_requireVariable (name : String) (line : Nat) :
    Mirrors r title id (requireVariable frames name line) (requireVariable frames' (r name) line) := by
  unfold Mirrors requireVariable
  rw [h name]
  rcases meaning? frames name with _ | _ | _ | _ <;> rfl

theorem mirrors_checkExpr : ∀ e : Expr,
    Mirrors r title id (checkExpr frames e) (checkExpr frames' (e.renamed r))
  | .literal _ _ => rfl
  | .variable name line => mirrors_requireVariable h name line
  | .unary _ operand _ => mirrors_checkExpr operand
  | .binary _ left right _ => (mirrors_checkExpr left).bind fun _ _ => mirrors_checkExpr right

end References

mutual

theorem mirrors_checkStatement (h : SameMeanings r frames frames') : ∀ s : Statement,
    Mirrors r title id (checkStatement frames s) (checkStatement frames' (s.renamed r))
  | .compound children => by
    rw [Statement.renamed, checkStatement, checkStatement]
    exact mirrors_checkStatements h children
  | .assign target line value _ => by
    rw [Statement.renamed, checkStatement, checkStatement]
    exact (mirrors_requireVariable h target line).bind fun _ _ => mirrors_checkExpr h value
  | .skip => by
    rw [Statement.renamed, checkStatement, checkStatement]
    rfl

theorem mirrors_checkStatements (h : SameMeanings r frames frames') : ∀ ss : List Statement,
    Mirrors r title id (checkStatements frames ss) (checkStatements frames' (Statement.allRenamed r ss))
  | [] => by
    rw [Statement.allRenamed, checkStatements, checkStatements]
    rfl
  | first :: others => by
    rw [Statement.allRenamed, checkStatements, checkStatements]
    exact (mirrors_checkStatement h first).bind fun _ _ => mirrors_checkStatements h others

end

/-! ### Declarations -/

/-- The name of the frame is only looked at if the declared name is taken. -/
theorem mirrors_declare {title' : String → String} {name : String}
    (htaken : own.meaning? name ≠ none → title own.title = title' own.title) (meaning : Meaning) (line : Nat) :
    Mirrors r title (Frame.renamed r title') (own.declare name meaning line)
      ((own.renamed r title').declare (r name) meaning line) := by
  unfold Mirrors Frame.declare
  rw [Frame.meaning?_renamed]
  cases hname : own.meaning? name with
  | some _ =>
    have htitle := htaken (by rw [hname]; exact Option.some_ne_none _)
    simp only [Except.mapError, Except.map, SemanticError.renamed, htitle]
    rfl
  | none => simp [Except.mapError, Except.map, Frame.renamed]

theorem mirrors_declareParameters : ∀ (ps : List TypedName) (own : Frame),
    Mirrors r title (Frame.renamed r title) (declareParameters own ps)
      (declareParameters (own.renamed r title) (ps.map (TypedName.renamed r)))
  | [], _ => rfl
  | first :: others, _ =>
    (mirrors_declare (fun _ => rfl) .variable first.line).bind fun own _ => mirrors_declareParameters others own

mutual

/-- A fault about a name taken in the frame itself has the name of the frame, which becomes another one by `title'`;
every other fault lies in a procedure, whose name is in the tree. -/
theorem mirrors_checkDeclaration : ∀ (d : Declaration) {outer outer' : List Frame} {own : Frame}
    {title title' : String → String}, SameMeanings r outer outer' →
    (own.meaning? d.symbol.name ≠ none → title own.title = title' own.title) →
    (own.meaning? d.symbol.name = none → title = r) →
    Mirrors r title (Frame.renamed r title') (checkDeclaration outer own d)
      (checkDeclaration outer' (own.renamed r title') (d.renamed r))
  | .variable declared, _, _, own, _, title', h, htaken, _ => by
    rw [Declaration.renamed, checkDeclaration, checkDeclaration]
    exact (mirrors_requireType (h.cons title' own) declared.type).bind fun _ _ => mirrors_declare htaken _ _
  | .procedure name parameters ⟨declarations, body⟩ line, _, _, own, _, title', h, htaken, hfree => by
    rw [Declaration.renamed, Block.renamed, checkDeclaration, checkDeclaration]
    refine (mirrors_requireTypes (h.cons title' own) parameters).bind fun _ _ => ?_
    refine (mirrors_declare htaken .procedure line).bind fun own' hown => ?_
    -- the name was free, so whatever fails from here on fails inside the procedure
    obtain rfl := hfree (Frame.declare_eq_ok_iff.mp hown).1
    have hinside := h.cons title' own'
    refine (mirrors_declareParameters parameters ⟨name, []⟩).bind fun inner _ => ?_
    refine (mirrors_checkDeclarations declarations hinside inner).bind fun inner' _ => ?_
    exact (mirrors_checkStatements (hinside.cons r inner') body).bind fun _ _ => rfl

/-- In the frame of a procedure, the name of the frame is one of the tree. -/
theorem mirrors_checkDeclarations : ∀ (ds : List Declaration) {outer outer' : List Frame},
    SameMeanings r outer outer' → ∀ own : Frame,
    Mirrors r r (Frame.renamed r r) (checkDeclarations outer own ds)
      (checkDeclarations outer' (own.renamed r r) (Declaration.allRenamed r ds))
  | [], _, _, _, _ => by
    rw [Declaration.allRenamed, checkDeclarations, checkDeclarations]
    rfl
  | first :: others, _, _, h, own => by
    rw [Declaration.allRenamed, checkDeclarations, checkDeclarations]
    refine (mirrors_checkDeclaration first h (fun _ => rfl) fun _ => rfl).bind fun own' _ => ?_
    exact mirrors_checkDeclarations others h own'

end

/-! ### The outermost frame -/

theorem meaning?_of_checkDeclaration : ∀ {d : Declaration} {own' : Frame}, checkDeclaration outer own d = .ok own' →
    own.meaning? d.symbol.name = none
  | .variable _, _, h => by
    rw [checkDeclaration] at h
    obtain ⟨_, -, hdeclare⟩ := bind_eq_ok.mp h
    exact (Frame.declare_eq_ok_iff.mp hdeclare).1
  | .procedure _ _ ⟨_, _⟩ _, _, h => by
    rw [checkDeclaration] at h
    obtain ⟨_, -, h⟩ := bind_eq_ok.mp h
    obtain ⟨_, hdeclare, -⟩ := bind_eq_ok.mp h
    exact (Frame.declare_eq_ok_iff.mp hdeclare).1

/-- Behind sound declarations, a name is declared again. -/
def Repeats (own : Frame) (ds : List Declaration) : Prop :=
  ∃ earlier d later own', ds = earlier ++ d :: later ∧ checkDeclarations [] own earlier = .ok own' ∧
    own'.meaning? d.symbol.name ≠ none

theorem repeats_cons {d : Declaration} {ds : List Declaration} :
    Repeats own (d :: ds) ↔
      own.meaning? d.symbol.name ≠ none ∨ ∃ own', checkDeclaration [] own d = .ok own' ∧ Repeats own' ds := by
  constructor
  · rintro ⟨earlier, d', later, last, hsplit, hearlier, htaken⟩
    cases earlier with
    | nil =>
      cases hsplit
      rw [checkDeclarations] at hearlier
      cases hearlier
      exact .inl htaken
    | cons first earlier =>
      cases hsplit
      rw [checkDeclarations] at hearlier
      obtain ⟨own', hfirst, hearlier⟩ := bind_eq_ok.mp hearlier
      exact .inr ⟨own', hfirst, earlier, d', later, last, rfl, hearlier, htaken⟩
  · rintro (htaken | ⟨own', hfirst, earlier, d', later, last, rfl, hearlier, htaken⟩)
    · exact ⟨[], d, ds, own, rfl, by rw [checkDeclarations], htaken⟩
    · refine ⟨d :: earlier, d', later, last, rfl, ?_, htaken⟩
      rw [checkDeclarations]
      exact bind_eq_ok.mpr ⟨own', hfirst, hearlier⟩

/-- In the outermost frame, the name of the frame is not one of the tree. -/
theorem mirrors_checkDeclarations_outermost {title title' : String → String} : ∀ (ds : List Declaration) {own : Frame},
    (Repeats own ds → title = title') → (¬ Repeats own ds → title = r) →
    Mirrors r title (Frame.renamed r title') (checkDeclarations [] own ds)
      (checkDeclarations [] (own.renamed r title') (Declaration.allRenamed r ds))
  | [], _, _, _ => by
    rw [Declaration.allRenamed, checkDeclarations, checkDeclarations]
    rfl
  | first :: others, own, htaken, hfree => by
    rw [repeats_cons] at htaken hfree
    rw [Declaration.allRenamed, checkDeclarations, checkDeclarations]
    have hframes : SameMeanings r [] [] := fun _ => rfl
    cases hfirst : checkDeclaration [] own first with
    | error e =>
      have hhead : Mirrors r title (Frame.renamed r title') (checkDeclaration [] own first)
          (checkDeclaration [] (own.renamed r title') (first.renamed r)) := by
        refine mirrors_checkDeclaration first hframes (fun h => by rw [htaken (.inl h)]) fun hnone => hfree ?_
        rintro (h | ⟨own', hok, -⟩)
        · exact h hnone
        · rw [hfirst] at hok
          cases hok
      rw [hfirst] at hhead
      exact hhead.bind fun _ hok => by cases hok
    | ok own' =>
      -- without a fault there is no frame to name, so that the titles may be taken as in a procedure
      have hnone := meaning?_of_checkDeclaration hfirst
      have hhead : Mirrors r r (Frame.renamed r title') (checkDeclaration [] own first)
          (checkDeclaration [] (own.renamed r title') (first.renamed r)) :=
        mirrors_checkDeclaration first hframes (fun h => absurd hnone h) fun _ => rfl
      rw [Mirrors, hfirst] at hhead
      rw [hhead]
      refine mirrors_checkDeclarations_outermost others (fun h => htaken (.inr ⟨own', hfirst, h⟩)) fun h => hfree ?_
      rintro (htaken | ⟨own₁, hok, hlater⟩)
      · exact htaken hnone
      · rw [hfirst] at hok
        cases hok
        exact h hlater

end Lexical

/-! ### Programs -/

/-- A name of the outermost scope is declared there again, behind sound declarations. -/
def Program.RepeatsOuterName (p : Program) : Prop :=
  ∃ earlier d later, p.block.declarations = earlier ++ d :: later ∧
    (Analysis.checkDeclarations earlier Analysis.start).result = .ok () ∧
    d.symbol.name ∈ (Analysis.start.current.symbols ++ earlier.map Declaration.symbol).map Symbol.name

theorem Scope.meaning?_frame_ne_none {scope : Scope} {name : String} :
    scope.frame.meaning? name ≠ none ↔ name ∈ scope.symbols.map Symbol.name := by
  rw [Scope.meaning?_frame, Ne, Option.map_eq_none_iff, Scope.get?, List.find?_eq_none]
  simp

theorem Analysis.lexical_checkDeclarations_eq_ok {ds : List Declaration} {own : Lexical.Frame} :
    Lexical.checkDeclarations [] Lexical.builtins ds = .ok own ↔
      (checkDeclarations ds start).result = .ok () ∧
        own = (start.adding (ds.map Declaration.symbol)).current.frame := by
  have hframe : Lexical.checkDeclarations [] Lexical.builtins ds = frameAfter (checkDeclarations ds) start := by
    rw [frameAfter_checkDeclarations, frame_start]
    rfl
  rw [hframe, frameAfter]
  cases hsound : (checkDeclarations ds start).result with
  | error e => simp [Except.map]
  | ok _ => simp [Except.map, state_checkDeclarations_of_ok hsound, eq_comm]

theorem Program.repeatsOuterName_iff {p : Program} :
    p.RepeatsOuterName ↔ Lexical.Repeats Lexical.builtins p.block.declarations := by
  constructor
  · rintro ⟨earlier, d, later, hsplit, hsound, htaken⟩
    refine ⟨earlier, d, later, (Analysis.start.adding (earlier.map Declaration.symbol)).current.frame, hsplit, ?_, ?_⟩
    · exact Analysis.lexical_checkDeclarations_eq_ok.mpr ⟨hsound, rfl⟩
    · exact Scope.meaning?_frame_ne_none.mpr htaken
  · rintro ⟨earlier, d, later, own, hsplit, hearlier, htaken⟩
    obtain ⟨hsound, rfl⟩ := Analysis.lexical_checkDeclarations_eq_ok.mp hearlier
    exact ⟨earlier, d, later, hsplit, hsound, Scope.meaning?_frame_ne_none.mp htaken⟩

namespace Analysis

variable {r : Renaming} {title : String → String}

theorem renamed_builtins : Lexical.builtins.renamed r (fun _ => globalName) = Lexical.builtins := by
  have hinteger : r "integer" = "integer" := r.apply_type .integer
  have hreal : r "real" = "real" := r.apply_type .real
  simp only [Lexical.Frame.renamed, Lexical.builtins, List.map_cons, List.map_nil, hinteger, hreal]
  rfl

theorem result_checkProgram_renamed {p : Program} (htaken : p.RepeatsOuterName → title = fun _ => globalName)
    (hfree : ¬ p.RepeatsOuterName → title = r) :
    (checkProgram (p.renamed r) start).result = (checkProgram p start).result.mapError (.renamed r title) := by
  rw [Program.repeatsOuterName_iff] at htaken hfree
  obtain ⟨name, ⟨declarations, body⟩, line⟩ := p
  rw [Program.renamed, Block.renamed, result_checkProgram, result_checkProgram, result_checkBlock_eq_lexical,
    result_checkBlock_eq_lexical, frame_start]
  have hdeclarations := Lexical.mirrors_checkDeclarations_outermost declarations htaken hfree
  rw [renamed_builtins] at hdeclarations
  have hframes : Lexical.SameMeanings r [] [] := fun _ => rfl
  exact (hdeclarations.bind fun own _ => Lexical.mirrors_checkStatements (hframes.cons _ own) body).eq_mapError

end Analysis

/-! ## Evaluation -/

/-- The second context holds and declares the names of the first one, renamed, and holds no others. -/
structure Context.Renames (r : Renaming) (context context' : Context) : Prop where
  get? : ∀ name, context'.store.get? (r name) = context.store.get? name
  held : ∀ name, context'.store.get? name ≠ none → ∃ original, r original = name
  declared : ∀ name, r name ∈ context'.declared ↔ name ∈ context.declared

theorem RuntimeError.IsArithmetic.renamed {e : RuntimeError} (h : e.IsArithmetic) (r : Renaming) : e.renamed r = e := by
  cases e with
  | divisionByZero => rfl
  | overflow => rfl
  | unknownVariable => cases h
  | unassignedVariable => cases h

/-- Operations do not know names. -/
theorem UnaryOperator.apply_renamed (r : Renaming) (op : UnaryOperator) (value : Value) (line : Nat) :
    (op.apply value line).mapError (.renamed r) = op.apply value line := by
  cases h : op.apply value line with
  | ok _ => rfl
  | error e => rw [Except.mapError, (UnaryOperator.isArithmetic_of_apply h).renamed]

theorem BinaryOperator.apply_renamed (r : Renaming) (op : BinaryOperator) (left right : Value) (line : Nat) :
    (op.apply left right line).mapError (.renamed r) = op.apply left right line := by
  cases h : op.apply left right line with
  | ok _ => rfl
  | error e => rw [Except.mapError, (BinaryOperator.isArithmetic_of_apply h).renamed]

namespace Context.Renames

variable {r : Renaming} {context context' : Context}

theorem empty (r : Renaming) : Renames r (.ofStore .empty) (.ofStore .empty) where
  get? _ := rfl
  held _ h := absurd rfl h
  declared _ := by simp [ofStore]

theorem declare (h : Renames r context context') (name : String) :
    Renames r (context.declare name) (context'.declare (r name)) where
  get? := h.get?
  held := h.held
  declared other := by
    simp only [Context.declare, List.mem_insert_iff, r.injective.eq_iff, h.declared]

theorem declareAll (h : Renames r context context') (names : List String) :
    Renames r (names.foldl Context.declare context) ((names.map r).foldl Context.declare context') := by
  induction names generalizing context context' with
  | nil => exact h
  | cons name others ih => exact ih (h.declare name)

theorem assign (h : Renames r context context') (name : String) (value : Value) :
    Renames r (context.assign name value) (context'.assign (r name) value) where
  get? other := by
    simp only [Context.assign, Store.get?_assign, r.injective.eq_iff, h.get?]
  held other hother := by
    rw [Context.assign, Store.get?_assign] at hother
    split at hother
    next heq => exact ⟨name, heq.symm⟩
    next => exact h.held other hother
  declared := h.declared

theorem read (h : Renames r context context') (name : String) (line : Nat) :
    context'.read (r name) line = (context.read name line).mapError (.renamed r) := by
  unfold Context.read
  rw [h.get?]
  cases context.store.get? name with
  | some value => rfl
  | none =>
    by_cases hname : name ∈ context.declared
    · simp only [if_pos hname, if_pos ((h.declared name).mpr hname)]
      rfl
    · simp only [if_neg hname, if_neg (mt (h.declared name).mp hname)]
      rfl

theorem eval (h : Renames r context context') : ∀ e : Expr,
    context'.eval (e.renamed r) = (context.eval e).mapError (.renamed r)
  | .literal _ _ => rfl
  | .variable name line => h.read name line
  | .unary op operand line => by
    rw [Expr.renamed, Context.eval, Context.eval, h.eval operand]
    cases context.eval operand with
    | error e => rfl
    | ok value => exact (op.apply_renamed r value line).symm
  | .binary op left right line => by
    rw [Expr.renamed, Context.eval, Context.eval, h.eval left, h.eval right]
    cases context.eval left with
    | error e => rfl
    | ok a =>
      cases context.eval right with
      | error e => rfl
      | ok b => exact (op.apply_renamed r a b line).symm

end Context.Renames

def Assignment.renamed (r : Renaming) (a : Assignment) : Assignment := ⟨r a.target, a.value.renamed r⟩

mutual

theorem Statement.assignments_renamed (r : Renaming) : ∀ s : Statement,
    (s.renamed r).assignments = s.assignments.map (Assignment.renamed r)
  | .compound children => by
    rw [Statement.renamed, Statement.assignments, Statement.assignments, Statement.allAssignments_renamed r children]
  | .assign _ _ _ _ => by
    rw [Statement.renamed, Statement.assignments, Statement.assignments]
    rfl
  | .skip => by
    rw [Statement.renamed, Statement.assignments]
    rfl

theorem Statement.allAssignments_renamed (r : Renaming) : ∀ ss : List Statement,
    Statement.allAssignments (Statement.allRenamed r ss) = (Statement.allAssignments ss).map (Assignment.renamed r)
  | [] => by
    rw [Statement.allRenamed, Statement.allAssignments]
    rfl
  | first :: others => by
    rw [Statement.allRenamed, Statement.allAssignments, Statement.allAssignments, List.map_append,
      Statement.assignments_renamed r first, Statement.allAssignments_renamed r others]

end

theorem Declaration.variableNames_renamed (r : Renaming) : ∀ ds : List Declaration,
    (Declaration.allRenamed r ds).filterMap Declaration.variableName? =
      (ds.filterMap Declaration.variableName?).map r
  | [] => by
    rw [Declaration.allRenamed]
    rfl
  | .variable declared :: others => by
    rw [Declaration.allRenamed, Declaration.renamed]
    exact congrArg (r declared.name :: ·) (Declaration.variableNames_renamed r others)
  | .procedure _ _ _ _ :: others => by
    rw [Declaration.allRenamed, Declaration.renamed]
    exact Declaration.variableNames_renamed r others

namespace Evaluation

variable {r : Renaming} {context context' : Context}

/-- Assignments to renamed names keep the correspondence, and have the same value or the same fault. -/
theorem runAssignments_renamed (h : context.Renames r context') (as : List Assignment) :
    (runAssignments (as.map (Assignment.renamed r)) context').result =
        (runAssignments as context).result.mapError (.renamed r) ∧
      (runAssignments as context).state.Renames r (runAssignments (as.map (Assignment.renamed r)) context').state := by
  induction as generalizing context context' with
  | nil => exact ⟨rfl, h⟩
  | cons a others ih =>
    have heval := h.eval a.value
    cases hvalue : context.eval a.value with
    | error e =>
      rw [hvalue] at heval
      rw [List.map_cons, runAssignments_cons_of_error hvalue, runAssignments_cons_of_error heval]
      exact ⟨rfl, h⟩
    | ok value =>
      rw [hvalue] at heval
      rw [List.map_cons, runAssignments_cons_of_ok hvalue, runAssignments_cons_of_ok heval]
      obtain ⟨hresult, hstate⟩ := ih (h.assign a.target value)
      refine ⟨?_, hstate⟩
      dsimp only
      rw [Assignment.renamed, hresult]
      cases (runAssignments others (context.assign a.target value)).result <;> rfl

theorem runProgram_renamed (h : context.Renames r context') (p : Program) :
    (runProgram (p.renamed r) context').result = (runProgram p context).result.mapError (.renamed r) ∧
      (runProgram p context).state.Renames r (runProgram (p.renamed r) context').state := by
  obtain ⟨name, ⟨declarations, body⟩, line⟩ := p
  rw [runProgram_apply, runProgram_apply, runBlock_apply, runBlock_apply]
  simp only [Program.renamed, Block.renamed, Block.assignments, Block.variableNames, Statement.allAssignments_renamed,
    Declaration.variableNames_renamed]
  exact runAssignments_renamed (h.declareAll _) _

end Evaluation

/-! ## Both -/

/-- **Names carry no meaning**: a renamed program has the renamed fault of scoping or none, the same value or the
renamed fault of evaluation, and leaves the same values under the renamed names. A fault about a name declared twice in
the outermost scope keeps the name of that scope. -/
theorem run_renamed (r : Renaming) (p : Program) :
    (p.RepeatsOuterName → (Analysis.checkProgram (p.renamed r) Analysis.start).result =
      (Analysis.checkProgram p Analysis.start).result.mapError (.renamed r fun _ => Analysis.globalName)) ∧
    (¬ p.RepeatsOuterName → (Analysis.checkProgram (p.renamed r) Analysis.start).result =
      (Analysis.checkProgram p Analysis.start).result.mapError (.renamed r r)) ∧
    let run := Evaluation.runProgram p (.ofStore .empty)
    let run' := Evaluation.runProgram (p.renamed r) (.ofStore .empty)
    run'.result = run.result.mapError (.renamed r) ∧
      (∀ name, run'.state.store.get? (r name) = run.state.store.get? name) ∧
      ∀ name, run'.state.store.get? name ≠ none → ∃ original, r original = name := by
  obtain ⟨hresult, hstate⟩ := Evaluation.runProgram_renamed (.empty r) p
  refine ⟨fun h => ?_, fun h => ?_, hresult, hstate.get?, hstate.held⟩
  · exact Analysis.result_checkProgram_renamed (fun _ => rfl) fun hfree => absurd h hfree
  · exact Analysis.result_checkProgram_renamed (fun htaken => absurd htaken h) fun _ => rfl

/-- With `a` and `global` swapped, the fault in the procedure `global` is one in the procedure `a`, and the fault in the
outermost scope stays there. -/
theorem run_renamed_swap :
    let r : Renaming := ⟨Equiv.swap "a" "global", Equiv.injective _, fun type => by cases type <;> decide⟩
    let a (line : Nat) : TypedName := ⟨"a", ⟨.integer, line⟩, line⟩
    let body : List Statement := [.assign "a" 3 (.literal (.integer 1) 3) 3]
    let inner : Program := ⟨"p", ⟨[.procedure "global" [a 1, a 2] ⟨[], []⟩ 1], body⟩, 1⟩
    let outer : Program := ⟨"p", ⟨[.variable (a 1), .variable (a 2)], body⟩, 1⟩
    (Analysis.checkProgram inner Analysis.start).result = .error (.duplicateIdentifier "a" "global" 2) ∧
    (Analysis.checkProgram outer Analysis.start).result = .error (.duplicateIdentifier "a" "global" 2) ∧
    (Analysis.checkProgram (inner.renamed r) Analysis.start).result = .error (.duplicateIdentifier "global" "a" 2) ∧
    (Analysis.checkProgram (outer.renamed r) Analysis.start).result =
      .error (.duplicateIdentifier "global" "global" 2) ∧
    (Evaluation.runProgram (inner.renamed r) (.ofStore .empty)).state.store.get? "global" = some (.integer 1) := by
  intro r a body inner outer
  have hfree : ¬ inner.RepeatsOuterName := by
    rintro ⟨_ | ⟨first, earlier⟩, d, later, hsplit, -, hname⟩
    · cases hsplit
      exact absurd hname (by decide)
    · simp [inner] at hsplit
  have htaken : outer.RepeatsOuterName := ⟨[.variable (a 1)], .variable (a 2), [], rfl, rfl, by decide⟩
  refine ⟨rfl, rfl, ((run_renamed r inner).2.1 hfree).trans rfl, ((run_renamed r outer).1 htaken).trans rfl, ?_⟩
  have hstore := (run_renamed r inner).2.2.2.1 "a"
  have hname : r "a" = "global" := by decide
  rw [hname] at hstore
  exact hstore.trans (by decide)

end MiniPascal
