import MiniPascal.Analysis

/-!
# What a walk does to the open scopes

References change nothing (`Preserves`), and a declaration at most adds its symbol to the current scope (`OnlyAdds`):
the scopes around it stay as they are, and a scope that was opened for a procedure is closed again
(`preserves_inScope`).

* `Analysis.onlyAdds_checkDeclarations`: this holds of every walk over declarations, whether it fails or not.
* `Analysis.state_checkBlock_of_ok`: a sound block adds the symbols of its declarations, in their order.
-/

namespace MiniPascal

/-! ## Symbols of declarations -/

def TypedName.symbol (v : TypedName) : VariableSymbol := ⟨v.name, v.type.name.text⟩

/-- What is declared in the scope around a declaration. -/
def Declaration.symbol : Declaration → Symbol
  | .variable declared => .variable declared.symbol
  | .procedure name parameters _ _ => .procedure name (parameters.map TypedName.symbol)

/-- A variable symbol of a declaration is that of a variable declaration. -/
theorem Declaration.exists_of_symbol {ds : List Declaration} {v : VariableSymbol}
    (h : .variable v ∈ ds.map Declaration.symbol) : ∃ declared, .variable declared ∈ ds ∧ declared.name = v.name := by
  obtain ⟨d, hd, hsymbol⟩ := List.mem_map.mp h
  cases d with
  | «variable» declared => cases hsymbol; exact ⟨declared, hd, rfl⟩
  | procedure name parameters block line => cases hsymbol

namespace Scope

theorem name_of_get? {scope : Scope} {name : String} {symbol : Symbol} (h : scope.get? name = some symbol) :
    symbol.name = name := by
  have := List.find?_some h
  simpa using this

end Scope

namespace Scopes

/-- The scopes with more symbols at the end of the current one. -/
def adding (scopes : Scopes) (symbols : List Symbol) : Scopes where
  current := { scopes.current with symbols := scopes.current.symbols ++ symbols }
  enclosing := scopes.enclosing
  chained := ⟨⟨scopes.chained.1.level, scopes.chained.1.parent⟩, scopes.chained.2⟩

@[simp] theorem adding_nil (scopes : Scopes) : scopes.adding [] = scopes := by simp [adding]

@[simp] theorem adding_adding (scopes : Scopes) (symbols others : List Symbol) :
    (scopes.adding symbols).adding others = scopes.adding (symbols ++ others) := by simp [adding]

@[simp] theorem enclosing_adding (scopes : Scopes) (symbols : List Symbol) :
    (scopes.adding symbols).enclosing = scopes.enclosing := rfl

/-- A looked up symbol has the name that was looked up. -/
theorem name_of_lookup {scopes : Scopes} {name : String} {symbol : Symbol} (h : scopes.lookup name = some symbol) :
    symbol.name = name := by
  obtain ⟨scope, -, hscope⟩ := List.exists_of_findSome?_eq_some h
  exact Scope.name_of_get? hscope

/-- Where no scope encloses the current one, a visible symbol is one of its own. -/
theorem mem_symbols_of_lookup {scopes : Scopes} {name : String} {symbol : Symbol} (houter : scopes.enclosing = [])
    (h : scopes.lookup name = some symbol) : symbol ∈ scopes.current.symbols := by
  obtain ⟨scope, hscope, hget⟩ := List.exists_of_findSome?_eq_some h
  rw [inward, houter, List.mem_singleton] at hscope
  subst hscope
  exact List.mem_of_find?_eq_some hget

end Scopes

namespace Analysis

variable {α β : Type}

theorem symbols_start : start.current.symbols =
    [.builtinType TypeName.integer.text, .builtinType TypeName.real.text] := by decide

/-! ## What walks are made of -/

/-- A property of walks that everything has of which references are made. -/
structure ReferenceClosed (P : {α : Type} → Analysis α → Prop) : Prop where
  pure {α : Type} (a : α) : P (pure a : Analysis α)
  fail {α : Type} (e : SemanticError) : P (Traced.fail e : Analysis α)
  lookup (name : String) : P (lookup name)
  bind {α β : Type} {x : Analysis α} {f : α → Analysis β} : P x → (∀ a, P (f a)) → P (x >>= f)

/-- A property of walks that everything has of which walks are made. -/
structure WalkClosed (P : {α : Type} → Analysis α → Prop) : Prop extends ReferenceClosed P where
  define (symbol : Symbol) (line : Nat) : P (define symbol line)
  inScope {α : Type} {walk : Analysis α} (name : String) : P walk → P (inScope name walk)

section Closed

variable {P : {α : Type} → Analysis α → Prop}

namespace ReferenceClosed

variable (h : ReferenceClosed P)

include h

theorem map {x : Analysis α} (hx : P x) (f : α → β) : P (f <$> x) := by
  rw [← bind_pure_comp]
  exact h.bind hx fun a => h.pure (f a)

theorem resolveType (type : TypeSpec) : P (resolveType type) := by
  refine h.bind (h.lookup _) fun found => ?_
  cases found.bind Symbol.type? with
  | some name => exact h.pure name
  | none => exact h.fail _

theorem resolveVariable (name : String) (line : Nat) : P (resolveVariable name line) := by
  refine h.bind (h.lookup _) fun found => ?_
  rcases found with _ | ⟨_ | _ | _⟩
  · exact h.fail _
  · exact h.fail _
  · exact h.pure ()
  · exact h.fail _

theorem checkExpr : ∀ e : Expr, P (checkExpr e)
  | .literal _ _ => h.pure ()
  | .variable name line => h.resolveVariable name line
  | .unary _ operand _ => checkExpr operand
  | .binary _ left right _ => h.bind (checkExpr left) fun _ => checkExpr right

mutual

theorem checkStatement : ∀ s : Statement, P (checkStatement s)
  | .compound children => checkStatements children
  | .assign target line value _ => h.bind (h.resolveVariable target line) fun _ => h.checkExpr value
  | .skip => h.pure ()

theorem checkStatements : ∀ ss : List Statement, P (checkStatements ss)
  | [] => h.pure ()
  | first :: others => h.bind (checkStatement first) fun _ => checkStatements others

end

theorem resolveParameters : ∀ ps : List TypedName, P (resolveParameters ps)
  | [] => h.pure []
  | first :: others => h.bind (h.resolveType first.type) fun _ => h.map (resolveParameters others) _

end ReferenceClosed

namespace WalkClosed

variable (h : WalkClosed P)

include h

theorem declareVariable (declared : TypedName) : P (declareVariable declared) :=
  h.bind (h.resolveType _) fun _ => h.define _ _

theorem declareParameters : ∀ ps : List (VariableSymbol × Nat), P (declareParameters ps)
  | [] => h.pure ()
  | (_, line) :: others => h.bind (h.define _ line) fun _ => declareParameters others

mutual

theorem checkDeclaration : ∀ d : Declaration, P (checkDeclaration d)
  | .variable declared => h.declareVariable declared
  | .procedure name parameters ⟨declarations, body⟩ line => by
    refine h.bind (h.resolveParameters parameters) fun resolved => ?_
    refine h.bind (h.define _ line) fun _ => h.inScope name ?_
    refine h.bind (h.declareParameters resolved) fun _ => ?_
    exact h.bind (checkDeclarations declarations) fun _ => h.checkStatements body

theorem checkDeclarations : ∀ ds : List Declaration, P (checkDeclarations ds)
  | [] => h.pure ()
  | first :: others => h.bind (checkDeclaration first) fun _ => checkDeclarations others

end

theorem checkBlock (block : Block) : P (checkBlock block) :=
  h.bind (h.checkDeclarations _) fun _ => h.checkStatements _

end WalkClosed

end Closed

/-! ## Walks that change nothing -/

/-- The walk leaves the scopes as they are. -/
def Preserves (x : Analysis α) : Prop := ∀ scopes, (x scopes).state = scopes

theorem Preserves.bind {x : Analysis α} {f : α → Analysis β} (hx : Preserves x) (hf : ∀ a, Preserves (f a)) :
    Preserves (x >>= f) := by
  intro scopes
  cases h : (x scopes).result with
  | ok a => rw [Traced.state_bind_of_ok f h, hf a, hx]
  | error e => rw [Traced.state_bind_of_error f h, hx]

/-- References leave the scopes as they are. -/
theorem referenceClosed_preserves : ReferenceClosed Preserves where
  pure _ := fun _ => rfl
  fail _ := fun _ => rfl
  lookup _ := fun _ => rfl
  bind := Preserves.bind

theorem preserves_resolveType (type : TypeSpec) : Preserves (resolveType type) :=
  referenceClosed_preserves.resolveType type

theorem preserves_resolveVariable (name : String) (line : Nat) : Preserves (resolveVariable name line) :=
  referenceClosed_preserves.resolveVariable name line

theorem preserves_checkExpr (e : Expr) : Preserves (checkExpr e) := referenceClosed_preserves.checkExpr e

theorem preserves_checkStatement (s : Statement) : Preserves (checkStatement s) :=
  referenceClosed_preserves.checkStatement s

theorem preserves_checkStatements (ss : List Statement) : Preserves (checkStatements ss) :=
  referenceClosed_preserves.checkStatements ss

theorem preserves_resolveParameters (ps : List TypedName) : Preserves (resolveParameters ps) :=
  referenceClosed_preserves.resolveParameters ps

/-! ## Walks that add symbols -/

/-- The walk at most adds symbols to the current scope. -/
def OnlyAdds (x : Analysis α) : Prop := ∀ scopes, ∃ symbols, (x scopes).state = scopes.adding symbols

theorem Preserves.onlyAdds {x : Analysis α} (hx : Preserves x) : OnlyAdds x := fun scopes =>
  ⟨[], by rw [hx, Scopes.adding_nil]⟩

theorem OnlyAdds.bind {x : Analysis α} {f : α → Analysis β} (hx : OnlyAdds x) (hf : ∀ a, OnlyAdds (f a)) :
    OnlyAdds (x >>= f) := by
  intro scopes
  obtain ⟨symbols, hs⟩ := hx scopes
  cases h : (x scopes).result with
  | ok a =>
    obtain ⟨others, ho⟩ := hf a (scopes.adding symbols)
    exact ⟨symbols ++ others, by rw [Traced.state_bind_of_ok f h, hs, ho, Scopes.adding_adding]⟩
  | error e => exact ⟨symbols, by rw [Traced.state_bind_of_error f h, hs]⟩

theorem state_define (symbol : Symbol) (line : Nat) (scopes : Scopes) :
    (define symbol line scopes).state =
      if (scopes.current.get? symbol.name).isSome then scopes else scopes.adding [symbol] := by
  unfold define Scopes.define Scope.insert
  by_cases h : (scopes.current.get? symbol.name).isSome
  · simp [h]
  · simp [h, Scopes.adding]

theorem result_define (symbol : Symbol) (line : Nat) (scopes : Scopes) :
    (define symbol line scopes).result =
      if (scopes.current.get? symbol.name).isSome
      then .error (.duplicateIdentifier symbol.name scopes.current.name line) else .ok () := by
  unfold define Scopes.define
  by_cases h : (scopes.current.get? symbol.name).isSome
  · simp [h]
  · simp [h]

theorem state_define_of_ok {symbol : Symbol} {line : Nat} {scopes : Scopes}
    (h : (define symbol line scopes).result = .ok ()) : (define symbol line scopes).state = scopes.adding [symbol] := by
  rw [result_define] at h
  rw [state_define]
  split at h
  · cases h
  · rename_i hnew; rw [if_neg hnew]

theorem state_define_of_error {symbol : Symbol} {line : Nat} {scopes : Scopes} {e : SemanticError}
    (h : (define symbol line scopes).result = .error e) : (define symbol line scopes).state = scopes := by
  rw [result_define] at h
  rw [state_define]
  split at h
  · rename_i hheld; rw [if_pos hheld]
  · cases h

theorem onlyAdds_define (symbol : Symbol) (line : Nat) : OnlyAdds (define symbol line) := by
  intro scopes
  rw [state_define]
  split
  · exact ⟨[], (Scopes.adding_nil _).symm⟩
  · exact ⟨[symbol], rfl⟩

/-- What a walk in a scope of its own leaves behind: the scopes from before. -/
theorem preserves_inScope {walk : Analysis α} (hwalk : OnlyAdds walk) (name : String) :
    Preserves (inScope name walk) := by
  intro scopes
  obtain ⟨symbols, hs⟩ := hwalk (scopes.enter name)
  have hleave : ((scopes.enter name).adding symbols).leave? =
      some (((scopes.enter name).adding symbols).current, scopes) := rfl
  unfold inScope
  rw [Traced.state_bind_of_ok _ (a := ()) rfl, Traced.state_bind_of_ok _ (a := ()) rfl, Traced.ensuring_apply]
  simp only [Traced.modify, Traced.emit, hs, hleave]

/-- The result of a walk in a scope of its own is that of the walk in the opened scope. -/
theorem result_inScope (walk : Analysis α) (name : String) (scopes : Scopes) :
    (inScope name walk scopes).result = (walk (scopes.enter name)).result := by
  unfold inScope
  rw [Traced.result_bind]
  rfl

theorem walkClosed_onlyAdds : WalkClosed OnlyAdds where
  pure a := (referenceClosed_preserves.pure a).onlyAdds
  fail e := (referenceClosed_preserves.fail e).onlyAdds
  lookup name := (referenceClosed_preserves.lookup name).onlyAdds
  bind := OnlyAdds.bind
  define := onlyAdds_define
  inScope name hwalk := (preserves_inScope hwalk name).onlyAdds

theorem onlyAdds_declareParameters (ps : List (VariableSymbol × Nat)) : OnlyAdds (declareParameters ps) :=
  walkClosed_onlyAdds.declareParameters ps

theorem onlyAdds_checkDeclaration (d : Declaration) : OnlyAdds (checkDeclaration d) :=
  walkClosed_onlyAdds.checkDeclaration d

theorem onlyAdds_checkDeclarations (ds : List Declaration) : OnlyAdds (checkDeclarations ds) :=
  walkClosed_onlyAdds.checkDeclarations ds

theorem onlyAdds_procedureBody {declarations : List Declaration} (h : OnlyAdds (checkDeclarations declarations))
    (resolved : List (VariableSymbol × Nat)) (body : List Statement) :
    OnlyAdds (do declareParameters resolved; checkDeclarations declarations; checkStatements body) :=
  (onlyAdds_declareParameters resolved).bind fun _ => h.bind fun _ => (preserves_checkStatements body).onlyAdds

/-! ## Walks that succeed -/

theorem result_resolveType (type : TypeSpec) (scopes : Scopes) :
    (resolveType type scopes).result = match (scopes.lookup type.name.text).bind Symbol.type? with
      | some name => .ok name
      | none => .error (.unknownType type.name.text type.line) := by
  unfold resolveType
  rw [Traced.bind_apply]
  simp only [lookup]
  cases (scopes.lookup type.name.text).bind Symbol.type? <;> rfl

theorem result_resolveVariable (name : String) (line : Nat) (scopes : Scopes) :
    (resolveVariable name line scopes).result = match scopes.lookup name with
      | some (.variable _) => .ok ()
      | some _ => .error (.notAVariable name line)
      | none => .error (.undeclaredIdentifier name line) := by
  unfold resolveVariable
  rw [Traced.bind_apply]
  simp only [lookup]
  rcases scopes.lookup name with _ | ⟨_ | _ | _⟩ <;> rfl

/-- A type is resolved to itself. -/
theorem eq_text_of_resolveType {type : TypeSpec} {scopes : Scopes} {name : String}
    (h : (resolveType type scopes).result = .ok name) : name = type.name.text := by
  rw [result_resolveType] at h
  cases hfound : scopes.lookup type.name.text with
  | none => simp [hfound] at h
  | some symbol =>
    have hname := Scopes.name_of_lookup hfound
    cases symbol with
    | builtinType found => simp_all [Symbol.type?, Symbol.name]
    | «variable» declared => simp [hfound, Symbol.type?] at h
    | procedure found parameters => simp [hfound, Symbol.type?] at h

theorem eq_symbols_of_resolveParameters : ∀ {ps : List TypedName} {scopes : Scopes}
    {resolved : List (VariableSymbol × Nat)}, (resolveParameters ps scopes).result = .ok resolved →
      resolved = ps.map fun p => (p.symbol, p.line)
  | [], _, _, h => by cases h; rfl
  | first :: others, scopes, resolved, h => by
    obtain ⟨type, htype, h⟩ := Traced.result_bind_eq_ok.mp h
    rw [preserves_resolveType] at h
    cases hothers : (resolveParameters others scopes).result with
    | error e => simp [hothers, Except.map] at h
    | ok rest =>
      simp only [Traced.map_apply, hothers, Except.map, Except.ok.injEq] at h
      subst h
      rw [eq_symbols_of_resolveParameters hothers, eq_text_of_resolveType htype]
      rfl

/-- A sound declaration adds its symbol. -/
theorem state_checkDeclaration_of_ok {d : Declaration} {scopes : Scopes}
    (h : (checkDeclaration d scopes).result = .ok ()) :
    (checkDeclaration d scopes).state = scopes.adding [d.symbol] := by
  cases d with
  | «variable» declared =>
    obtain ⟨type, htype, hdefine⟩ := Traced.result_bind_eq_ok.mp h
    change (declareVariable declared scopes).state = _
    unfold declareVariable
    rw [preserves_resolveType] at hdefine
    rw [Traced.state_bind_of_ok _ htype, preserves_resolveType, state_define_of_ok hdefine,
      eq_text_of_resolveType htype]
    rfl
  | procedure name parameters block line =>
    obtain ⟨declarations, body⟩ := block
    unfold checkDeclaration at h ⊢
    obtain ⟨resolved, hresolved, h⟩ := Traced.result_bind_eq_ok.mp h
    rw [preserves_resolveParameters] at h
    obtain ⟨_, hdefine, h⟩ := Traced.result_bind_eq_ok.mp h
    rw [Traced.state_bind_of_ok _ hresolved, preserves_resolveParameters, Traced.state_bind_of_ok _ hdefine,
      state_define_of_ok hdefine, eq_symbols_of_resolveParameters hresolved,
      preserves_inScope (onlyAdds_procedureBody (onlyAdds_checkDeclarations declarations) _ body), List.map_map]
    rfl

/-- Sound declarations add their symbols in their order. -/
theorem state_checkDeclarations_of_ok : ∀ {ds : List Declaration} {scopes : Scopes},
    (checkDeclarations ds scopes).result = .ok () →
      (checkDeclarations ds scopes).state = scopes.adding (ds.map Declaration.symbol)
  | [], scopes, _ => (Scopes.adding_nil scopes).symm
  | first :: others, scopes, h => by
    unfold checkDeclarations at h ⊢
    obtain ⟨_, hfirst, hothers⟩ := Traced.result_bind_eq_ok.mp h
    rw [state_checkDeclaration_of_ok hfirst] at hothers
    rw [Traced.state_bind_of_ok _ hfirst, state_checkDeclaration_of_ok hfirst, state_checkDeclarations_of_ok hothers,
      Scopes.adding_adding]
    rfl

theorem result_checkProgram (program : Program) (scopes : Scopes) :
    (checkProgram program scopes).result = (checkBlock program.block scopes).result := by
  simp only [checkProgram, Traced.bind_apply, Traced.emit, Traced.get]
  cases (checkBlock program.block scopes).result <;> rfl

theorem state_checkProgram (program : Program) (scopes : Scopes) :
    (checkProgram program scopes).state = (checkBlock program.block scopes).state := by
  simp only [checkProgram, Traced.bind_apply, Traced.emit, Traced.get]
  cases (checkBlock program.block scopes).result <;> rfl

/-- What a sound block amounts to: its declarations are sound, and so is its body in their sight. -/
theorem result_checkBlock_eq_ok {block : Block} {scopes : Scopes} :
    (checkBlock block scopes).result = .ok () ↔
      (checkDeclarations block.declarations scopes).result = .ok () ∧
        (checkStatements block.body (scopes.adding (block.declarations.map Declaration.symbol))).result = .ok () := by
  unfold checkBlock
  rw [Traced.result_bind_eq_ok]
  constructor
  · rintro ⟨_, hds, hbody⟩
    rw [state_checkDeclarations_of_ok hds] at hbody
    exact ⟨hds, hbody⟩
  · rintro ⟨hds, hbody⟩
    rw [← state_checkDeclarations_of_ok hds] at hbody
    exact ⟨(), hds, hbody⟩

theorem state_checkBlock_of_ok {block : Block} {scopes : Scopes} (h : (checkBlock block scopes).result = .ok ()) :
    (checkBlock block scopes).state = scopes.adding (block.declarations.map Declaration.symbol) := by
  have hds := (result_checkBlock_eq_ok.mp h).1
  unfold checkBlock
  rw [Traced.state_bind_of_ok _ hds, preserves_checkStatements, state_checkDeclarations_of_ok hds]

end Analysis

end MiniPascal
