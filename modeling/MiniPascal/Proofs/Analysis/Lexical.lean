import MiniPascal.Proofs.Analysis.Scopes

/-!
# Lexical scoping

The rules of scoping as a checker without a state. A frame holds the names that one block has declared so far; a
declaration takes the frames around its block as they are and gives the extended frame of the block itself, so that
nothing has to be closed or undone. The analysis, which works on one stack of open scopes, says the same of every
program:

* `Analysis.frameAfter_checkDeclarations`: declarations extend the frame of the current scope in the same way, and have
  the same first fault.
* `Analysis.result_checkProgram_eq_lexical`: the results agree.
-/

namespace MiniPascal

/-! ## Frames -/

namespace Lexical

inductive Meaning where
  | type
  | variable
  | procedure
  deriving DecidableEq, Repr

/-- The names declared so far between a heading and its `begin`. -/
structure Frame where
  title : String
  names : List (String × Meaning)
  deriving DecidableEq, Repr

def Frame.meaning? (frame : Frame) (name : String) : Option Meaning := frame.names.lookup name

/-- A name is declared once in a frame. -/
def Frame.declare (frame : Frame) (name : String) (meaning : Meaning) (line : Nat) : Except SemanticError Frame :=
  match frame.meaning? name with
  | some _ => .error (.duplicateIdentifier name frame.title line)
  | none => .ok { frame with names := frame.names ++ [(name, meaning)] }

theorem Frame.declare_eq_ok_iff {frame extended : Frame} {name : String} {meaning : Meaning} {line : Nat} :
    frame.declare name meaning line = .ok extended ↔
      frame.meaning? name = none ∧ extended = { frame with names := frame.names ++ [(name, meaning)] } := by
  unfold Frame.declare
  cases frame.meaning? name <;> simp [eq_comm]

/-- The meaning of a name in the first frame that has it; the innermost frame comes first. -/
def meaning? : List Frame → String → Option Meaning
  | [], _ => none
  | frame :: outer, name => (frame.meaning? name).or (meaning? outer name)

/-- A declared name has its meaning from then on, and no other name changes its own. -/
theorem Frame.meaning?_of_declare {own own' : Frame} {name : String} {meaning : Meaning} {line : Nat}
    (h : own.declare name meaning line = .ok own') (other : String) :
    own'.meaning? other = if other = name then some meaning else own.meaning? other := by
  obtain ⟨hname, rfl⟩ := Frame.declare_eq_ok_iff.mp h
  unfold Frame.meaning? at hname ⊢
  by_cases hother : other = name
  · subst hother
    simp [List.lookup_append, hname]
  · simp [List.lookup_append, List.lookup_cons, hother, beq_eq_false_iff_ne.mpr hother]

theorem meaning?_of_declare {own own' : Frame} {name : String} {meaning : Meaning} {line : Nat}
    (h : own.declare name meaning line = .ok own') (outer : List Frame) (other : String) :
    meaning? (own' :: outer) other = if other = name then some meaning else meaning? (own :: outer) other := by
  rw [meaning?, meaning?, Frame.meaning?_of_declare h]
  split <;> rfl

theorem bind_eq_ok {α β : Type} {x : Except SemanticError α} {f : α → Except SemanticError β} {b : β} :
    (x >>= f) = .ok b ↔ ∃ a, x = .ok a ∧ f a = .ok b := by
  cases x <;> simp [bind, Except.bind]

/-- A check before another computation. -/
theorem check_bind_eq_ok {β : Type} {x : Except SemanticError Unit} {f : Unit → Except SemanticError β} {b : β} :
    (x >>= f) = .ok b ↔ x = .ok () ∧ f () = .ok b := by
  cases x <;> simp [bind, Except.bind]

/-! ## Rules -/

def requireType (frames : List Frame) (type : TypeSpec) : Except SemanticError Unit :=
  match meaning? frames type.name.text with
  | some .type => .ok ()
  | _ => .error (.unknownType type.name.text type.line)

def requireVariable (frames : List Frame) (name : String) (line : Nat) : Except SemanticError Unit :=
  match meaning? frames name with
  | some .variable => .ok ()
  | some _ => .error (.notAVariable name line)
  | none => .error (.undeclaredIdentifier name line)

def checkExpr (frames : List Frame) : Expr → Except SemanticError Unit
  | .literal _ _ => .ok ()
  | .variable name line => requireVariable frames name line
  | .unary _ operand _ => checkExpr frames operand
  | .binary _ left right _ => do
    checkExpr frames left
    checkExpr frames right

mutual

def checkStatement (frames : List Frame) : Statement → Except SemanticError Unit
  | .compound children => checkStatements frames children
  | .assign target targetLine value _ => do
    requireVariable frames target targetLine
    checkExpr frames value
  | .skip => .ok ()

def checkStatements (frames : List Frame) : List Statement → Except SemanticError Unit
  | [] => .ok ()
  | first :: others => do
    checkStatement frames first
    checkStatements frames others

end

def requireTypes (frames : List Frame) : List TypedName → Except SemanticError Unit
  | [] => .ok ()
  | first :: others => do
    requireType frames first.type
    requireTypes frames others

def declareParameters (own : Frame) : List TypedName → Except SemanticError Frame
  | [] => .ok own
  | first :: others => do
    let own ← own.declare first.name .variable first.line
    declareParameters own others

mutual

/-- The frame of a block behind a declaration. What a procedure declares inside is seen there and nowhere else. -/
def checkDeclaration (outer : List Frame) (own : Frame) : Declaration → Except SemanticError Frame
  | .variable declared => do
    requireType (own :: outer) declared.type
    own.declare declared.name .variable declared.line
  | .procedure name parameters ⟨declarations, body⟩ line => do
    requireTypes (own :: outer) parameters
    let own ← own.declare name .procedure line
    let inner ← declareParameters ⟨name, []⟩ parameters
    let inner ← checkDeclarations (own :: outer) inner declarations
    checkStatements (inner :: own :: outer) body
    return own

def checkDeclarations (outer : List Frame) (own : Frame) : List Declaration → Except SemanticError Frame
  | [] => .ok own
  | first :: others => do
    let own ← checkDeclaration outer own first
    checkDeclarations outer own others

end

/-- The frame around every program. -/
def builtins : Frame := ⟨"global", [("integer", .type), ("real", .type)]⟩

def checkProgram (program : Program) : Except SemanticError Unit := do
  let own ← checkDeclarations [] builtins program.block.declarations
  checkStatements [own] program.block.body

theorem requireType_eq_ok_iff {frames : List Frame} {type : TypeSpec} :
    requireType frames type = .ok () ↔ meaning? frames type.name.text = some .type := by
  unfold requireType
  rcases meaning? frames type.name.text with _ | _ | _ | _ <;> simp

theorem requireTypes_eq_ok_iff {frames : List Frame} {ps : List TypedName} :
    requireTypes frames ps = .ok () ↔ ∀ p ∈ ps, meaning? frames p.type.name.text = some .type := by
  induction ps with
  | nil => simp [requireTypes]
  | cons first others ih =>
    rw [requireTypes, check_bind_eq_ok, List.forall_mem_cons, ih, requireType_eq_ok_iff]

theorem requireVariable_eq_ok_iff {frames : List Frame} {name : String} {line : Nat} :
    requireVariable frames name line = .ok () ↔ meaning? frames name = some .variable := by
  unfold requireVariable
  rcases meaning? frames name with _ | _ | _ | _ <;> simp

end Lexical

/-! ## Scopes as frames -/

open Lexical (Frame Meaning)

def Symbol.meaning : Symbol → Meaning
  | builtinType _ => .type
  | .variable _ => .variable
  | procedure _ _ => .procedure

def Scope.frame (scope : Scope) : Frame := ⟨scope.name, scope.symbols.map fun symbol => (symbol.name, symbol.meaning)⟩

def Scopes.frames (scopes : Scopes) : List Frame := scopes.inward.map Scope.frame

theorem Scope.meaning?_frame (scope : Scope) (name : String) :
    scope.frame.meaning? name = (scope.get? name).map Symbol.meaning := by
  unfold Scope.get? Frame.meaning? Scope.frame
  induction scope.symbols with
  | nil => rfl
  | cons symbol others ih =>
    rw [List.map_cons, List.lookup_cons, List.find?_cons, ih]
    by_cases h : symbol.name = name
    · simp [h]
    · simp [beq_eq_false_iff_ne.mpr h, beq_eq_false_iff_ne.mpr (Ne.symm h)]

theorem Scopes.meaning?_frames (scopes : Scopes) (name : String) :
    Lexical.meaning? scopes.frames name = (scopes.lookup name).map Symbol.meaning := by
  unfold Scopes.frames Scopes.lookup
  induction scopes.inward with
  | nil => rfl
  | cons scope outer ih =>
    rw [List.map_cons, Lexical.meaning?, ih, Scope.meaning?_frame, List.findSome?_cons]
    cases scope.get? name <;> rfl

theorem Scopes.frame_adding (scopes : Scopes) (symbol : Symbol) :
    (scopes.adding [symbol]).current.frame =
      { scopes.current.frame with
        names := scopes.current.frame.names ++ [(symbol.name, symbol.meaning)] } := by
  simp [Scope.frame, Scopes.adding]

namespace Analysis

/-! ## References -/

theorem result_resolveType_eq_lexical (type : TypeSpec) (scopes : Scopes) :
    (resolveType type scopes).result = (Lexical.requireType scopes.frames type).map fun _ => type.name.text := by
  rw [result_resolveType, Lexical.requireType, Scopes.meaning?_frames]
  cases hfound : scopes.lookup type.name.text with
  | none => rfl
  | some symbol =>
    have hname := Scopes.name_of_lookup hfound
    cases symbol with
    | builtinType name => cases hname; rfl
    | «variable» declared => rfl
    | procedure name parameters => rfl

theorem result_resolveVariable_eq_lexical (name : String) (line : Nat) (scopes : Scopes) :
    (resolveVariable name line scopes).result = Lexical.requireVariable scopes.frames name line := by
  rw [result_resolveVariable, Lexical.requireVariable, Scopes.meaning?_frames]
  rcases scopes.lookup name with _ | ⟨_ | _ | _⟩ <;> rfl

/-- Where the first of two walks changes nothing, both see the same scopes. -/
theorem Preserves.result_bind {α β : Type} {x : Analysis α} (hx : Preserves x) (f : α → Analysis β) (scopes : Scopes) :
    ((x >>= f) scopes).result = (x scopes).result >>= fun a => (f a scopes).result := by
  rw [Traced.result_bind, hx]

theorem result_checkExpr_eq_lexical (scopes : Scopes) : ∀ e : Expr,
    (checkExpr e scopes).result = Lexical.checkExpr scopes.frames e
  | .literal _ _ => rfl
  | .variable name line => result_resolveVariable_eq_lexical name line scopes
  | .unary _ operand _ => result_checkExpr_eq_lexical scopes operand
  | .binary _ left right _ => by
    rw [checkExpr, (preserves_checkExpr left).result_bind, result_checkExpr_eq_lexical scopes left,
      result_checkExpr_eq_lexical scopes right, Lexical.checkExpr]

mutual

theorem result_checkStatement_eq_lexical (scopes : Scopes) : ∀ s : Statement,
    (checkStatement s scopes).result = Lexical.checkStatement scopes.frames s
  | .compound children => result_checkStatements_eq_lexical scopes children
  | .assign target line value _ => by
    rw [checkStatement, (preserves_resolveVariable target line).result_bind, result_resolveVariable_eq_lexical,
      result_checkExpr_eq_lexical, Lexical.checkStatement]
  | .skip => rfl

theorem result_checkStatements_eq_lexical (scopes : Scopes) : ∀ ss : List Statement,
    (checkStatements ss scopes).result = Lexical.checkStatements scopes.frames ss
  | [] => rfl
  | first :: others => by
    rw [checkStatements, (preserves_checkStatement first).result_bind, result_checkStatement_eq_lexical scopes first,
      result_checkStatements_eq_lexical scopes others, Lexical.checkStatements]

end

theorem result_resolveParameters_eq_lexical (scopes : Scopes) : ∀ ps : List TypedName,
    (resolveParameters ps scopes).result =
      (Lexical.requireTypes scopes.frames ps).map fun _ => ps.map fun p => (p.symbol, p.line)
  | [] => rfl
  | first :: others => by
    rw [resolveParameters, (preserves_resolveType first.type).result_bind, result_resolveType_eq_lexical,
      Lexical.requireTypes]
    cases Lexical.requireType scopes.frames first.type with
    | error e => rfl
    | ok _ =>
      change Except.map _ (resolveParameters others scopes).result = _
      rw [result_resolveParameters_eq_lexical scopes others]
      dsimp only [bind, Except.bind]
      cases Lexical.requireTypes scopes.frames others <;> rfl

/-! ## Declarations -/

/-- The frame of the current scope behind a walk. -/
def frameAfter (x : Analysis Unit) (scopes : Scopes) : Except SemanticError Frame :=
  (x scopes).result.map fun _ => (x scopes).state.current.frame

theorem frameAfter_define (symbol : Symbol) (line : Nat) (scopes : Scopes) :
    frameAfter (define symbol line) scopes = scopes.current.frame.declare symbol.name symbol.meaning line := by
  rw [frameAfter, result_define, state_define, Frame.declare, Scope.meaning?_frame]
  cases scopes.current.get? symbol.name with
  | some _ => rfl
  | none => exact congrArg Except.ok (scopes.frame_adding symbol)

/-- A walk that changes nothing lets the next one start from the same frame. -/
theorem Preserves.frameAfter_bind {α : Type} {x : Analysis α} (hx : Preserves x) (f : α → Analysis Unit)
    (scopes : Scopes) : frameAfter (x >>= f) scopes = (x scopes).result >>= fun a => frameAfter (f a) scopes := by
  cases h : (x scopes).result with
  | ok a => simp only [frameAfter, Traced.result_bind, Traced.state_bind_of_ok f h, h, hx scopes]; rfl
  | error e => simp only [frameAfter, Traced.result_bind, h]; rfl

section Sequences

variable {x y : Analysis Unit} {scopes : Scopes} (hx : OnlyAdds x)

include hx

/-- What follows a walk sees the frame that the walk leaves behind, and the scopes around it as they were. -/
theorem OnlyAdds.result_bind (k : Frame → Except SemanticError Unit)
    (hy : ∀ scopes' : Scopes, scopes'.enclosing = scopes.enclosing → (y scopes').result = k scopes'.current.frame) :
    ((x >>= fun _ => y) scopes).result = frameAfter x scopes >>= k := by
  obtain ⟨symbols, hs⟩ := hx scopes
  rw [Traced.result_bind, frameAfter, hy _ (by rw [hs, Scopes.enclosing_adding])]
  cases (x scopes).result <;> rfl

theorem OnlyAdds.frameAfter_bind (k : Frame → Except SemanticError Frame)
    (hy : ∀ scopes' : Scopes, scopes'.enclosing = scopes.enclosing → frameAfter y scopes' = k scopes'.current.frame) :
    frameAfter (x >>= fun _ => y) scopes = frameAfter x scopes >>= k := by
  obtain ⟨symbols, hs⟩ := hx scopes
  have hnext := hy (x scopes).state (by rw [hs, Scopes.enclosing_adding])
  cases h : (x scopes).result with
  | ok _ =>
    have hk : frameAfter x scopes >>= k = k (x scopes).state.current.frame := by rw [frameAfter, h]; rfl
    rw [hk, ← hnext, frameAfter, Traced.result_bind, Traced.state_bind_of_ok _ h, h]
    rfl
  | error e => rw [frameAfter, frameAfter, Traced.result_bind, h]; rfl

end Sequences

/-- A walk in a scope of its own leaves the frame around it as it was. -/
theorem frameAfter_inScope {walk : Analysis Unit} (hwalk : OnlyAdds walk) (name : String) (scopes : Scopes) :
    frameAfter (inScope name walk) scopes =
      (walk (scopes.enter name)).result >>= fun _ => pure scopes.current.frame := by
  rw [frameAfter, result_inScope, preserves_inScope hwalk]
  cases (walk (scopes.enter name)).result <;> rfl

theorem frameAfter_declareParameters : ∀ (ps : List TypedName) (scopes : Scopes),
    frameAfter (declareParameters (ps.map fun p => (p.symbol, p.line))) scopes =
      Lexical.declareParameters scopes.current.frame ps
  | [], _ => rfl
  | first :: others, scopes => by
    rw [List.map_cons, declareParameters, Lexical.declareParameters,
      (onlyAdds_define _ _).frameAfter_bind (Lexical.declareParameters · others) fun scopes' _ =>
        frameAfter_declareParameters others scopes',
      frameAfter_define]
    rfl

/-- What a procedure holds, once its declarations are known to agree. -/
theorem result_procedureBody {declarations : List Declaration}
    (h : ∀ scopes, frameAfter (checkDeclarations declarations) scopes =
      Lexical.checkDeclarations (scopes.enclosing.map Scope.frame) scopes.current.frame declarations)
    (parameters : List TypedName) (body : List Statement) (scopes : Scopes) :
    ((do
      declareParameters (parameters.map fun p => (p.symbol, p.line))
      checkDeclarations declarations
      checkStatements body : Analysis Unit) scopes).result = (do
      let inner ← Lexical.declareParameters scopes.current.frame parameters
      let inner ← Lexical.checkDeclarations (scopes.enclosing.map Scope.frame) inner declarations
      Lexical.checkStatements (inner :: scopes.enclosing.map Scope.frame) body) := by
  rw [← frameAfter_declareParameters]
  refine (onlyAdds_declareParameters _).result_bind _ fun scopes' houter => ?_
  rw [← houter, ← h]
  refine (onlyAdds_checkDeclarations declarations).result_bind _ fun scopes'' houter' => ?_
  rw [result_checkStatements_eq_lexical, ← houter']
  rfl

mutual

theorem frameAfter_checkDeclaration : ∀ (d : Declaration) (scopes : Scopes),
    frameAfter (checkDeclaration d) scopes =
      Lexical.checkDeclaration (scopes.enclosing.map Scope.frame) scopes.current.frame d
  | .variable declared, scopes => by
    change frameAfter (declareVariable declared) scopes = _
    rw [declareVariable, (preserves_resolveType _).frameAfter_bind, result_resolveType_eq_lexical,
      Lexical.checkDeclaration]
    change _ = Lexical.requireType scopes.frames declared.type >>= _
    cases Lexical.requireType scopes.frames declared.type with
    | error e => rfl
    | ok _ => exact frameAfter_define _ _ _
  | .procedure name parameters ⟨declarations, body⟩ line, scopes => by
    rw [checkDeclaration, (preserves_resolveParameters _).frameAfter_bind, result_resolveParameters_eq_lexical,
      Lexical.checkDeclaration]
    change _ = Lexical.requireTypes scopes.frames parameters >>= _
    cases Lexical.requireTypes scopes.frames parameters with
    | error e => rfl
    | ok _ =>
      have hwalk := fun resolved => onlyAdds_procedureBody (onlyAdds_checkDeclarations declarations) resolved body
      refine ((onlyAdds_define _ line).frameAfter_bind (fun own => do
        let inner ← Lexical.declareParameters ⟨name, []⟩ parameters
        let inner ← Lexical.checkDeclarations (own :: scopes.enclosing.map Scope.frame) inner declarations
        Lexical.checkStatements (inner :: own :: scopes.enclosing.map Scope.frame) body
        return own) fun scopes' houter => ?_).trans ?_
      · rw [frameAfter_inScope (hwalk _), result_procedureBody (frameAfter_checkDeclarations declarations), ← houter]
        simp only [bind_assoc]
        rfl
      · rw [frameAfter_define]
        rfl

theorem frameAfter_checkDeclarations : ∀ (ds : List Declaration) (scopes : Scopes),
    frameAfter (checkDeclarations ds) scopes =
      Lexical.checkDeclarations (scopes.enclosing.map Scope.frame) scopes.current.frame ds
  | [], _ => rfl
  | first :: others, scopes => by
    rw [checkDeclarations, Lexical.checkDeclarations, ← frameAfter_checkDeclaration first scopes]
    refine (onlyAdds_checkDeclaration first).frameAfter_bind _ fun scopes' houter => ?_
    rw [frameAfter_checkDeclarations others scopes', houter]

end

/-- A block is sound by the rules, in the sight of the scopes around it. -/
theorem result_checkBlock_eq_lexical (block : Block) (scopes : Scopes) :
    (checkBlock block scopes).result = (do
      let own ← Lexical.checkDeclarations (scopes.enclosing.map Scope.frame) scopes.current.frame block.declarations
      Lexical.checkStatements (own :: scopes.enclosing.map Scope.frame) block.body) := by
  rw [checkBlock, ← frameAfter_checkDeclarations]
  refine (onlyAdds_checkDeclarations _).result_bind _ fun scopes' houter => ?_
  rw [result_checkStatements_eq_lexical, Scopes.frames, Scopes.inward, houter]
  rfl

theorem frame_start : start.current.frame = Lexical.builtins := by decide

/-- **The analysis implements lexical scoping**: of every program it says what the rules of scoping say. -/
theorem result_checkProgram_eq_lexical (program : Program) :
    (checkProgram program start).result = Lexical.checkProgram program := by
  rw [result_checkProgram, checkBlock, Lexical.checkProgram, ← frame_start]
  refine ((onlyAdds_checkDeclarations _).result_bind (fun own => Lexical.checkStatements [own] program.block.body)
    fun scopes' houter => ?_).trans ?_
  · rw [result_checkStatements_eq_lexical, Scopes.frames, Scopes.inward, houter]
    rfl
  · rw [frameAfter_checkDeclarations]
    rfl

end Analysis

end MiniPascal
