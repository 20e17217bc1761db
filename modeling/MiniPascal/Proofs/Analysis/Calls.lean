import MiniPascal.Proofs.Analysis.Scopes

/-!
# What calls leave behind

An analysis is used for one tree after the other, and its scopes are kept from call to call. A call that fails, at any
depth of its tree, closes all the scopes it has opened; what it leaves behind are the symbols of the outer declarations
that it has come through, and that of a procedure inside of which it has failed (`Analysis.Appended`).

* `Analysis.scopes_after_calls`: after every call only the outermost scope is open, with the earlier symbols in it and
  those that the call appends.
-/

namespace MiniPascal.Analysis

/-! ## Declarations that fail -/

/-- Parameters as they are declared in their procedure, if all their types are known. -/
def resolved (parameters : List TypedName) : List (VariableSymbol × Nat) := parameters.map fun p => (p.symbol, p.line)

/-- The walk over the inside of a procedure. -/
def procedureBody (parameters : List TypedName) (block : Block) : Analysis Unit := do
  declareParameters (resolved parameters)
  checkDeclarations block.declarations
  checkStatements block.body

/-- What a declaration leaves behind that fails with `e`. A procedure that fails inside is declared already. -/
inductive LeftBy (scopes : Scopes) (e : SemanticError) : Declaration → List Symbol → Prop
  | variable {declared : TypedName} : (declareVariable declared scopes).result = .error e →
      LeftBy scopes e (.variable declared) []
  | parameterTypes {name : String} {parameters : List TypedName} {block : Block} {line : Nat} :
      (resolveParameters parameters scopes).result = .error e →
      LeftBy scopes e (.procedure name parameters block line) []
  | name {name : String} {parameters : List TypedName} {block : Block} {line : Nat} :
      (resolveParameters parameters scopes).result = .ok (resolved parameters) →
      (define (.procedure name (parameters.map TypedName.symbol)) line scopes).result = .error e →
      LeftBy scopes e (.procedure name parameters block line) []
  | inside {name : String} {parameters : List TypedName} {block : Block} {line : Nat} :
      (resolveParameters parameters scopes).result = .ok (resolved parameters) →
      (define (.procedure name (parameters.map TypedName.symbol)) line scopes).result = .ok () →
      (procedureBody parameters block
        ((scopes.adding [.procedure name (parameters.map TypedName.symbol)]).enter name)).result = .error e →
      LeftBy scopes e (.procedure name parameters block line)
        [.procedure name (parameters.map TypedName.symbol)]

theorem state_declareVariable_of_error {declared : TypedName} {scopes : Scopes} {e : SemanticError}
    (h : (declareVariable declared scopes).result = .error e) : (declareVariable declared scopes).state = scopes := by
  unfold declareVariable at h ⊢
  rcases Traced.result_bind_eq_error.mp h with htype | ⟨type, htype, hdefine⟩
  · rw [Traced.state_bind_of_error _ htype, preserves_resolveType]
  · rw [preserves_resolveType] at hdefine
    rw [Traced.state_bind_of_ok _ htype, preserves_resolveType, state_define_of_error hdefine]

theorem exists_leftBy {d : Declaration} {scopes : Scopes} {e : SemanticError}
    (h : (checkDeclaration d scopes).result = .error e) :
    ∃ symbols, LeftBy scopes e d symbols ∧ (checkDeclaration d scopes).state = scopes.adding symbols := by
  cases d with
  | «variable» declared =>
    refine ⟨[], .variable h, ?_⟩
    rw [Scopes.adding_nil]
    exact state_declareVariable_of_error h
  | procedure name parameters block line =>
    obtain ⟨declarations, body⟩ := block
    unfold checkDeclaration at h ⊢
    rcases Traced.result_bind_eq_error.mp h with htypes | ⟨known, hresolved, h⟩
    · refine ⟨[], .parameterTypes htypes, ?_⟩
      rw [Traced.state_bind_of_error _ htypes, preserves_resolveParameters, Scopes.adding_nil]
    · rw [Traced.state_bind_of_ok _ hresolved]
      rw [preserves_resolveParameters] at h ⊢
      obtain rfl := eq_symbols_of_resolveParameters hresolved
      rw [List.map_map] at h ⊢
      rcases Traced.result_bind_eq_error.mp h with hdefine | ⟨_, hdefine, h⟩
      · refine ⟨[], .name hresolved hdefine, ?_⟩
        rw [Traced.state_bind_of_error _ hdefine, state_define_of_error hdefine, Scopes.adding_nil]
      · rw [state_define_of_ok hdefine, result_inScope] at h
        refine ⟨_, .inside hresolved hdefine h, ?_⟩
        rw [Traced.state_bind_of_ok _ hdefine, state_define_of_ok hdefine]
        exact preserves_inScope (onlyAdds_procedureBody (onlyAdds_checkDeclarations declarations) _ body) name _

theorem checkDeclarations_cons (first : Declaration) (others : List Declaration) :
    checkDeclarations (first :: others) = checkDeclaration first >>= fun _ => checkDeclarations others := by
  rw [checkDeclarations]

/-- Of declarations that fail, those before the failing one are declared. -/
theorem exists_leftBy_of_checkDeclarations {ds : List Declaration} {scopes : Scopes} {e : SemanticError}
    (h : (checkDeclarations ds scopes).result = .error e) :
    ∃ earlier d later symbols, ds = earlier ++ d :: later ∧ (checkDeclarations earlier scopes).result = .ok () ∧
      LeftBy (scopes.adding (earlier.map Declaration.symbol)) e d symbols ∧
      (checkDeclarations ds scopes).state = scopes.adding (earlier.map Declaration.symbol ++ symbols) := by
  induction ds generalizing scopes with
  | nil => cases h
  | cons first others ih =>
    rw [checkDeclarations_cons] at h ⊢
    rcases Traced.result_bind_eq_error.mp h with hfirst | ⟨_, hfirst, hothers⟩
    · obtain ⟨symbols, hleft, hstate⟩ := exists_leftBy hfirst
      refine ⟨[], first, others, symbols, rfl, rfl, ?_, ?_⟩
      · rwa [List.map_nil, Scopes.adding_nil]
      · rw [Traced.state_bind_of_error _ hfirst, hstate]
        rfl
    · rw [state_checkDeclaration_of_ok hfirst] at hothers
      obtain ⟨earlier, d, later, symbols, rfl, hearlier, hleft, hstate⟩ := ih hothers
      refine ⟨first :: earlier, d, later, symbols, rfl, ?_, ?_, ?_⟩
      · rw [← state_checkDeclaration_of_ok hfirst] at hearlier
        rw [checkDeclarations_cons]
        exact Traced.result_bind_eq_ok.mpr ⟨(), hfirst, hearlier⟩
      · rwa [Scopes.adding_adding] at hleft
      · rw [Traced.state_bind_of_ok _ hfirst, state_checkDeclaration_of_ok hfirst, hstate, Scopes.adding_adding]
        rfl

/-! ## Calls -/

inductive Call where
  | program (tree : Program)
  | expression (tree : Expr)

namespace Call

def check : Call → Analysis Unit
  | program tree => checkProgram tree
  | expression tree => checkExpr tree

/-- The declarations in the outer block of the tree. -/
def declarations : Call → List Declaration
  | program tree => tree.block.declarations
  | expression _ => []

end Call

/-- The scopes after calls, each of which starts with what the call before it has left. -/
def afterCalls (scopes : Scopes) (calls : List Call) : Scopes :=
  calls.foldl (fun scopes call => (call.check scopes).state) scopes

/-- The symbols that a call with the given result appends. -/
inductive Appended (scopes : Scopes) : Call → Except SemanticError Unit → List Symbol → Prop
  | expression {tree : Expr} {result : Except SemanticError Unit} : Appended scopes (.expression tree) result []
  | accepted {tree : Program} :
      Appended scopes (.program tree) (.ok ()) (tree.block.declarations.map Declaration.symbol)
  | body {tree : Program} {e : SemanticError} : (checkDeclarations tree.block.declarations scopes).result = .ok () →
      (checkStatements tree.block.body
        (scopes.adding (tree.block.declarations.map Declaration.symbol))).result = .error e →
      Appended scopes (.program tree) (.error e) (tree.block.declarations.map Declaration.symbol)
  | declaration {tree : Program} {e : SemanticError} {earlier later : List Declaration} {d : Declaration}
      {symbols : List Symbol} : tree.block.declarations = earlier ++ d :: later →
      (checkDeclarations earlier scopes).result = .ok () →
      LeftBy (scopes.adding (earlier.map Declaration.symbol)) e d symbols →
      Appended scopes (.program tree) (.error e) (earlier.map Declaration.symbol ++ symbols)

theorem LeftBy.isPrefix {scopes : Scopes} {e : SemanticError} {d : Declaration} {symbols : List Symbol}
    (h : LeftBy scopes e d symbols) : symbols <+: [d.symbol] := by
  cases h with
  | «variable» _ => exact List.nil_prefix
  | parameterTypes _ => exact List.nil_prefix
  | name _ _ => exact List.nil_prefix
  | inside _ _ _ => exact List.prefix_rfl

/-- What is appended belongs to the first declarations of the outer block. -/
theorem Appended.isPrefix {scopes : Scopes} {call : Call} {result : Except SemanticError Unit} {symbols : List Symbol}
    (h : Appended scopes call result symbols) : symbols <+: call.declarations.map Declaration.symbol := by
  cases h with
  | expression => exact List.nil_prefix
  | accepted => exact List.prefix_rfl
  | body _ _ => exact List.prefix_rfl
  | @declaration tree e earlier later d symbols hsplit _ hleft =>
    obtain ⟨others, hothers⟩ := hleft.isPrefix
    refine ⟨others ++ later.map Declaration.symbol, ?_⟩
    show _ = tree.block.declarations.map Declaration.symbol
    rw [hsplit, List.map_append, List.map_cons, List.append_assoc, ← List.append_assoc symbols, hothers]
    rfl

/-- One call appends symbols to the current scope and does nothing else. -/
theorem exists_appended (call : Call) (scopes : Scopes) :
    ∃ symbols, Appended scopes call (call.check scopes).result symbols ∧
      (call.check scopes).state = scopes.adding symbols := by
  cases call with
  | expression tree =>
    refine ⟨[], .expression, ?_⟩
    rw [Scopes.adding_nil]
    exact preserves_checkExpr tree scopes
  | program tree =>
    show ∃ symbols, Appended scopes (.program tree) (checkProgram tree scopes).result symbols ∧
      (checkProgram tree scopes).state = scopes.adding symbols
    rw [result_checkProgram, state_checkProgram]
    cases hresult : (checkBlock tree.block scopes).result with
    | ok _ => exact ⟨_, .accepted, state_checkBlock_of_ok hresult⟩
    | error e =>
      unfold checkBlock at hresult ⊢
      rcases Traced.result_bind_eq_error.mp hresult with hds | ⟨_, hds, hbody⟩
      · obtain ⟨earlier, d, later, symbols, hsplit, hearlier, hleft, hstate⟩ := exists_leftBy_of_checkDeclarations hds
        exact ⟨_, .declaration hsplit hearlier hleft, by rw [Traced.state_bind_of_error _ hds, hstate]⟩
      · rw [state_checkDeclarations_of_ok hds] at hbody
        refine ⟨_, .body hds hbody, ?_⟩
        rw [Traced.state_bind_of_ok _ hds, preserves_checkStatements, state_checkDeclarations_of_ok hds]

/-- Calls append symbols of outer declarations to the current scope and do nothing else. -/
theorem exists_afterCalls (calls : List Call) (scopes : Scopes) :
    ∃ symbols, afterCalls scopes calls = scopes.adding symbols ∧
      ∀ symbol ∈ symbols, ∃ call ∈ calls, symbol ∈ call.declarations.map Declaration.symbol := by
  induction calls generalizing scopes with
  | nil => exact ⟨[], (Scopes.adding_nil scopes).symm, fun _ h => by cases h⟩
  | cons first others ih =>
    obtain ⟨symbols, happended, hstate⟩ := exists_appended first scopes
    obtain ⟨more, hmore, hsymbols⟩ := ih (scopes.adding symbols)
    refine ⟨symbols ++ more, ?_, fun symbol hsymbol => ?_⟩
    · show afterCalls (first.check scopes).state others = _
      rw [hstate, hmore, Scopes.adding_adding]
    · rcases List.mem_append.mp hsymbol with hsymbol | hsymbol
      · exact ⟨first, List.mem_cons_self, happended.isPrefix.subset hsymbol⟩
      · obtain ⟨call, hcall, hdeclared⟩ := hsymbols symbol hsymbol
        exact ⟨call, List.mem_cons_of_mem _ hcall, hdeclared⟩

/-- **No scope is leaked or lost**: whatever calls were made before, and however the call ends, it leaves only the
outermost scope open. The symbols from before stay in their order, and behind them stand those of the first outer
declarations, up to the one that failed. -/
theorem scopes_after_calls (earlier : List Call) (call : Call) :
    let before := afterCalls start earlier
    let after := (call.check before).state
    (after.enclosing = [] ∧ after.current.name = "global" ∧ after.current.level = 1 ∧ after.current.parent = none) ∧
    [.builtinType "integer", .builtinType "real"] <+: before.current.symbols ∧
    (∃ symbols, Appended before call (call.check before).result symbols ∧
      symbols <+: call.declarations.map Declaration.symbol ∧
      after.current.symbols = before.current.symbols ++ symbols) ∧
    ∀ symbol ∈ after.current.symbols, symbol ∈ [.builtinType "integer", .builtinType "real"] ∨
      ∃ made ∈ earlier ++ [call], symbol ∈ made.declarations.map Declaration.symbol := by
  intro before after
  obtain ⟨symbols, hbefore, hsymbols⟩ := exists_afterCalls earlier start
  obtain ⟨more, happended, hafter⟩ := exists_appended call before
  have hstart : start.current.symbols = [.builtinType "integer", .builtinType "real"] := symbols_start
  have hcurrent : before.current.symbols = [.builtinType "integer", .builtinType "real"] ++ symbols := by
    rw [← hstart]
    exact congrArg (·.current.symbols) hbefore
  have hadded : after.current.symbols = before.current.symbols ++ more := congrArg (·.current.symbols) hafter
  refine ⟨?_, ⟨symbols, hcurrent.symm⟩, ⟨more, happended, happended.isPrefix, hadded⟩, fun symbol hsymbol => ?_⟩
  · have hall : after = start.adding (symbols ++ more) := by
      rw [← Scopes.adding_adding, ← hbefore]
      exact hafter
    rw [hall]
    exact ⟨rfl, rfl, rfl, rfl⟩
  · rw [hadded, hcurrent, List.append_assoc] at hsymbol
    rcases List.mem_append.mp hsymbol with hsymbol | hsymbol
    · exact .inl hsymbol
    · right
      rcases List.mem_append.mp hsymbol with hsymbol | hsymbol
      · obtain ⟨made, hmade, hdeclared⟩ := hsymbols symbol hsymbol
        exact ⟨made, List.mem_append_left _ hmade, hdeclared⟩
      · exact ⟨call, by simp, happended.isPrefix.subset hsymbol⟩

end MiniPascal.Analysis
