import MiniPascal.Proofs.Syntax.Printer

/-!
# Trees without places

Places are carried along by every rule and looked at by none: a rule that gets its tokens without their places does what
it does with them, and its tree or its fault is without places too (`Reply.Mirrors`). Each way of putting rules together
keeps this.

* `parseProgram_unplaced`, `parseExpression_unplaced`: parsing commutes with taking the places away.
-/

namespace MiniPascal

/-! ## Taking places away -/

/-- The token as if it stood on line 0 and column 0. -/
def Lexeme.unplaced (t : Lexeme) : Lexeme := .loose t.token

def SyntaxError.unplaced : SyntaxError → SyntaxError
  | unexpectedToken expected found _ _ => unexpectedToken expected found 0 0
  | trailingTokens found _ _ => trailingTokens found 0 0

def Expr.unplaced : Expr → Expr
  | .literal value _ => .literal value 0
  | .variable name _ => .variable name 0
  | .unary op operand _ => .unary op operand.unplaced 0
  | .binary op left right _ => .binary op left.unplaced right.unplaced 0

mutual

def Statement.unplaced : Statement → Statement
  | .compound children => .compound (Statement.allUnplaced children)
  | .assign target _ value _ => .assign target 0 value.unplaced 0
  | .skip => .skip

def Statement.allUnplaced : List Statement → List Statement
  | [] => []
  | first :: others => first.unplaced :: Statement.allUnplaced others

end

def TypedName.unplaced (v : TypedName) : TypedName := ⟨v.name, ⟨v.type.name, 0⟩, 0⟩

mutual

def Declaration.unplaced : Declaration → Declaration
  | .variable declared => .variable declared.unplaced
  | .procedure name parameters block _ => .procedure name (parameters.map TypedName.unplaced) block.unplaced 0

def Block.unplaced : Block → Block
  | ⟨declarations, body⟩ => ⟨Declaration.allUnplaced declarations, Statement.allUnplaced body⟩

def Declaration.allUnplaced : List Declaration → List Declaration
  | [] => []
  | first :: others => first.unplaced :: Declaration.allUnplaced others

end

def Program.unplaced (p : Program) : Program := ⟨p.name, p.block.unplaced, 0⟩

theorem Declaration.allUnplaced_eq_map : ∀ ds : List Declaration, allUnplaced ds = ds.map unplaced
  | [] => by rw [allUnplaced, List.map_nil]
  | first :: others => by rw [allUnplaced, allUnplaced_eq_map others, List.map_cons]

/-- The declarations of variables without their places. -/
theorem Declaration.allUnplaced_variables (vs : List TypedName) (ds : List Declaration) :
    allUnplaced (vs.map .variable ++ ds) = (vs.map TypedName.unplaced).map .variable ++ allUnplaced ds := by
  have hvariable : unplaced ∘ Declaration.variable = Declaration.variable ∘ TypedName.unplaced := by
    funext v
    simp only [Function.comp_apply, unplaced]
  simp only [allUnplaced_eq_map, List.map_append, List.map_map, hvariable]

/-- Tokens without their places are known by the tokens alone. -/
theorem map_unplaced_eq {ts ts' : List Lexeme} (h : ts.map Lexeme.token = ts'.map Lexeme.token) :
    ts.map Lexeme.unplaced = ts'.map Lexeme.unplaced := by
  have hmap : ∀ us : List Lexeme, us.map Lexeme.unplaced = (us.map Lexeme.token).map Lexeme.loose := by
    intro us
    rw [List.map_map]
    rfl
  rw [hmap, hmap, h]

namespace Parser

variable {α β γ : Type}

theorem peek_unplaced (ts : List Lexeme) : peek (ts.map Lexeme.unplaced) = peek ts := by
  cases ts <;> rfl

/-! ## Replies to tokens without places -/

/-- The second reply leaves the tokens of the first without their places, and what it has read or missed is what the
first one has, without places. -/
structure Reply.Mirrors (strip : α → α) {n m : Nat} (reply : Reply α n) (bare : Reply α m) : Prop where
  result : bare.result = (reply.result.map strip).mapError SyntaxError.unplaced
  rest : bare.rest = reply.rest.map Lexeme.unplaced

section Replies

variable {strip : α → α} {strip' : β → β} {ts : List Lexeme}

theorem mirrors_done {a b : α} (h : b = strip a) (ts : List Lexeme) :
    (done a ts).Mirrors strip (done b (ts.map Lexeme.unplaced)) := by
  subst h
  exact ⟨rfl, rfl⟩

theorem mirrors_unexpected (expected : Expected) (ts : List Lexeme) :
    (unexpected expected ts).Mirrors strip (unexpected expected (ts.map Lexeme.unplaced)) := by
  cases ts with
  | nil => exact ⟨rfl, rfl⟩
  | cons t tail => exact ⟨rfl, rfl⟩

theorem Reply.Mirrors.weaken {n m n' m' : Nat} {reply : Reply α n} {bare : Reply α m} (h : reply.Mirrors strip bare)
    (hle : n ≤ n') (hle' : m ≤ m') : (reply.weaken hle).Mirrors strip (bare.weaken hle') :=
  ⟨h.result, h.rest⟩

theorem Reply.Mirrors.map {n m : Nat} {reply : Reply α n} {bare : Reply α m} (h : reply.Mirrors strip bare)
    {f g : α → β} (hfg : ∀ a, g (strip a) = strip' (f a)) : (reply.map f).Mirrors strip' (bare.map g) := by
  constructor
  · rw [result_map, result_map, h.result]
    cases reply.result with
    | ok a => exact congrArg Except.ok (hfg a)
    | error e => rfl
  · exact h.rest

theorem Reply.Mirrors.andThen_of_reads {n m : Nat} {reply : Reply α n} {bare : Reply α m}
    {next : α → (rest : List Lexeme) → rest.length ≤ n → Reply β rest.length}
    {next' : α → (rest : List Lexeme) → rest.length ≤ m → Reply β rest.length}
    (h : reply.Mirrors strip bare)
    (hnext : ∀ a rest, reply.Reads a rest → ∀ hle hle',
      (next a rest hle).Mirrors strip' (next' (strip a) (rest.map Lexeme.unplaced) hle')) :
    (reply.andThen next).Mirrors strip' (bare.andThen next') := by
  obtain ⟨result, rest, hle⟩ := reply
  obtain ⟨result', rest', hle'⟩ := bare
  obtain ⟨hresult, hrest⟩ := h
  dsimp only at hresult hrest
  subst hresult hrest
  cases result with
  | ok a => exact (hnext a rest ⟨rfl, rfl⟩ hle hle').weaken hle hle'
  | error e => exact ⟨rfl, rfl⟩

theorem Reply.Mirrors.andThen {n m : Nat} {reply : Reply α n} {bare : Reply α m}
    {next : α → (rest : List Lexeme) → rest.length ≤ n → Reply β rest.length}
    {next' : α → (rest : List Lexeme) → rest.length ≤ m → Reply β rest.length}
    (h : reply.Mirrors strip bare)
    (hnext : ∀ a rest, ∀ hle : rest.length ≤ n, ∀ hle',
      (next a rest hle).Mirrors strip' (next' (strip a) (rest.map Lexeme.unplaced) hle')) :
    (reply.andThen next).Mirrors strip' (bare.andThen next') :=
  h.andThen_of_reads fun a rest _ => hnext a rest

theorem mirrors_onNext {choose : Token → Option γ}
    {next : γ → Nat → (rest : List Lexeme) → rest.length < ts.length → Reply β rest.length}
    {next' : γ → Nat → (rest : List Lexeme) → rest.length < (ts.map Lexeme.unplaced).length → Reply β rest.length}
    {otherwise : Reply β ts.length} {otherwise' : Reply β (ts.map Lexeme.unplaced).length}
    (hnext : ∀ c line rest, ∀ hlt : rest.length < ts.length, ∀ hlt',
      (next c line rest hlt).Mirrors strip' (next' c 0 (rest.map Lexeme.unplaced) hlt'))
    (hother : otherwise.Mirrors strip' otherwise') :
    (onNext choose ts next otherwise).Mirrors strip' (onNext choose (ts.map Lexeme.unplaced) next' otherwise') := by
  cases ts with
  | nil => exact hother
  | cons t tail =>
    cases hsome : choose t.token with
    | some c =>
      -- a choice sees the token and not its place, so the bare token is chosen too
      have hbare : onNext choose ((t :: tail).map Lexeme.unplaced) next' otherwise' = _ :=
        onNext_of_some (t := t.unplaced) hsome next' otherwise'
      rw [onNext_of_some hsome, hbare]
      exact (hnext c t.line tail _ _).weaken _ _
    | none =>
      have hbare : onNext choose ((t :: tail).map Lexeme.unplaced) next' otherwise' = otherwise' :=
        onNext_of_none (t := t.unplaced) hsome next' otherwise'
      rw [onNext_of_none hsome, hbare]
      exact hother

theorem mirrors_accept {expected : Expected} {choose : Token → Option γ}
    {next : γ → Nat → (rest : List Lexeme) → rest.length < ts.length → Reply β rest.length}
    {next' : γ → Nat → (rest : List Lexeme) → rest.length < (ts.map Lexeme.unplaced).length → Reply β rest.length}
    (hnext : ∀ c line rest, ∀ hlt : rest.length < ts.length, ∀ hlt',
      (next c line rest hlt).Mirrors strip' (next' c 0 (rest.map Lexeme.unplaced) hlt')) :
    (accept expected choose ts next).Mirrors strip' (accept expected choose (ts.map Lexeme.unplaced) next') :=
  mirrors_onNext hnext (mirrors_unexpected expected ts)

theorem mirrors_expect {kind : Token.Kind}
    {next : Nat → (rest : List Lexeme) → rest.length < ts.length → Reply β rest.length}
    {next' : Nat → (rest : List Lexeme) → rest.length < (ts.map Lexeme.unplaced).length → Reply β rest.length}
    (hnext : ∀ line rest, ∀ hlt : rest.length < ts.length, ∀ hlt',
      (next line rest hlt).Mirrors strip' (next' 0 (rest.map Lexeme.unplaced) hlt')) :
    (expect kind ts next).Mirrors strip' (expect kind (ts.map Lexeme.unplaced) next') :=
  mirrors_accept fun _ => hnext

theorem mirrors_identifier
    {next : String → Nat → (rest : List Lexeme) → rest.length < ts.length → Reply β rest.length}
    {next' : String → Nat → (rest : List Lexeme) → rest.length < (ts.map Lexeme.unplaced).length →
      Reply β rest.length}
    (hnext : ∀ name line rest, ∀ hlt : rest.length < ts.length, ∀ hlt',
      (next name line rest hlt).Mirrors strip' (next' name 0 (rest.map Lexeme.unplaced) hlt')) :
    (identifier ts next).Mirrors strip' (identifier (ts.map Lexeme.unplaced) next') :=
  mirrors_accept hnext

/-- Whether a rule has come to the end is seen without places. -/
theorem Reply.Mirrors.toEnd {n m : Nat} {reply : Reply α n} {bare : Reply α m} (h : reply.Mirrors strip bare) :
    bare.toEnd = (reply.toEnd.map strip).mapError SyntaxError.unplaced := by
  obtain ⟨result, rest, hle⟩ := reply
  obtain ⟨result', rest', hle'⟩ := bare
  obtain ⟨hresult, hrest⟩ := h
  dsimp only at hresult hrest
  subst hresult hrest
  cases result with
  | error e => rfl
  | ok a =>
    cases rest with
    | nil => rfl
    | cons t tail =>
      show (if t.kind = .endOfInput then .ok (strip a) else .error (.trailingTokens t.token 0 0) :
          Except SyntaxError α) =
        ((if t.kind = .endOfInput then .ok a else .error (.trailingTokens t.token t.line t.column) :
          Except SyntaxError α).map strip).mapError SyntaxError.unplaced
      split
      · rfl
      · rfl

end Replies

/-! ## Expressions -/

mutual

theorem mirrors_factor (ts : List Lexeme) :
    (factor ts).Mirrors Expr.unplaced (factor (ts.map Lexeme.unplaced)) := by
  rw [factor, factor]
  refine mirrors_onNext (fun op line rest _ _ => ?_) ?_
  · exact (mirrors_factor rest).map fun _ => rfl
  refine mirrors_onNext (fun value line rest _ _ => mirrors_done rfl rest) ?_
  refine mirrors_onNext (fun name line rest _ _ => mirrors_done rfl rest) ?_
  refine mirrors_onNext (fun _ _ rest _ _ => ?_) (mirrors_unexpected _ ts)
  refine (mirrors_expression rest).andThen fun e rest' _ _ => ?_
  exact mirrors_expect fun _ rest'' _ _ => mirrors_done rfl rest''
termination_by 4 * ts.length
decreasing_by all_goals omega

theorem mirrors_multiplicative (ts : List Lexeme) :
    (multiplicative ts).Mirrors Expr.unplaced (multiplicative (ts.map Lexeme.unplaced)) := by
  rw [multiplicative, multiplicative]
  exact (mirrors_factor ts).andThen fun left rest _ _ => mirrors_multiplicativeRest left rest
termination_by 4 * ts.length + 1
decreasing_by all_goals omega

theorem mirrors_multiplicativeRest (left : Expr) (ts : List Lexeme) :
    (multiplicativeRest left ts).Mirrors Expr.unplaced
      (multiplicativeRest left.unplaced (ts.map Lexeme.unplaced)) := by
  rw [multiplicativeRest, multiplicativeRest]
  refine mirrors_onNext (fun op line rest _ _ => ?_) (mirrors_done rfl ts)
  refine (mirrors_factor rest).andThen fun right rest' _ _ => ?_
  exact mirrors_multiplicativeRest (.binary op left right line) rest'
termination_by 4 * ts.length
decreasing_by all_goals omega

theorem mirrors_additive (ts : List Lexeme) :
    (additive ts).Mirrors Expr.unplaced (additive (ts.map Lexeme.unplaced)) := by
  rw [additive, additive]
  exact (mirrors_multiplicative ts).andThen fun left rest _ _ => mirrors_additiveRest left rest
termination_by 4 * ts.length + 2
decreasing_by all_goals omega

theorem mirrors_additiveRest (left : Expr) (ts : List Lexeme) :
    (additiveRest left ts).Mirrors Expr.unplaced (additiveRest left.unplaced (ts.map Lexeme.unplaced)) := by
  rw [additiveRest, additiveRest]
  refine mirrors_onNext (fun op line rest _ _ => ?_) (mirrors_done rfl ts)
  refine (mirrors_multiplicative rest).andThen fun right rest' _ _ => ?_
  exact mirrors_additiveRest (.binary op left right line) rest'
termination_by 4 * ts.length
decreasing_by all_goals omega

theorem mirrors_expression (ts : List Lexeme) :
    (expression ts).Mirrors Expr.unplaced (expression (ts.map Lexeme.unplaced)) := by
  rw [expression, expression]
  exact mirrors_additive ts
termination_by 4 * ts.length + 3

end

/-! ## Statements -/

theorem mirrors_assignment (ts : List Lexeme) :
    (assignment ts).Mirrors Statement.unplaced (assignment (ts.map Lexeme.unplaced)) := by
  refine mirrors_identifier fun target targetLine rest _ _ => ?_
  refine mirrors_expect fun line rest' _ _ => ?_
  exact (mirrors_expression rest').map fun e => by rw [Statement.unplaced]

mutual

theorem mirrors_compound (ts : List Lexeme) :
    (compound ts).Mirrors Statement.allUnplaced (compound (ts.map Lexeme.unplaced)) := by
  rw [compound, compound]
  refine mirrors_expect fun _ rest _ _ => ?_
  refine (mirrors_statements rest).andThen fun children rest' _ _ => ?_
  exact mirrors_expect fun _ rest'' _ _ => mirrors_done rfl rest''
termination_by 3 * ts.length
decreasing_by all_goals omega

theorem mirrors_statement (ts : List Lexeme) :
    (statement ts).Mirrors Statement.unplaced (statement (ts.map Lexeme.unplaced)) := by
  -- which statement begins is decided by the kind of the next token
  rw [statement, statement, peek_unplaced]
  split
  · exact (mirrors_compound ts).map fun children => by rw [Statement.unplaced]
  · exact mirrors_assignment ts
  · exact mirrors_done (by rw [Statement.unplaced]) ts
termination_by 3 * ts.length + 1
decreasing_by all_goals omega

theorem mirrors_statements (ts : List Lexeme) :
    (statements ts).Mirrors Statement.allUnplaced (statements (ts.map Lexeme.unplaced)) := by
  rw [statements, statements]
  refine (mirrors_statement ts).andThen fun first rest _ _ => ?_
  refine mirrors_onNext (fun _ _ rest' _ _ => ?_) (mirrors_done ?_ rest)
  · exact (mirrors_statements rest').map fun others => by rw [Statement.allUnplaced]
  · rw [Statement.allUnplaced, Statement.allUnplaced]
termination_by 3 * ts.length + 2
decreasing_by all_goals omega

end

/-! ## Declarations -/

/-- A name without its line. -/
def unplacedName (named : String × Nat) : String × Nat := (named.1, 0)

theorem mirrors_names (ts : List Lexeme) :
    (names ts).Mirrors (List.map unplacedName) (names (ts.map Lexeme.unplaced)) := by
  rw [names, names]
  refine mirrors_identifier fun name line rest _ _ => ?_
  refine mirrors_onNext (fun _ _ rest' _ _ => ?_) (mirrors_done rfl rest)
  exact (mirrors_names rest').map fun _ => rfl
termination_by ts.length
decreasing_by omega

theorem mirrors_typedNames (ts : List Lexeme) :
    (typedNames ts).Mirrors (List.map TypedName.unplaced) (typedNames (ts.map Lexeme.unplaced)) := by
  refine (mirrors_names ts).andThen fun ns rest _ _ => ?_
  refine mirrors_expect fun _ rest' _ _ => ?_
  refine mirrors_accept fun type line rest'' _ _ => mirrors_done ?_ rest''
  rw [List.map_map, List.map_map]
  rfl

theorem mirrors_variableGroups (ts : List Lexeme) :
    (variableGroups ts).Mirrors (List.map TypedName.unplaced) (variableGroups (ts.map Lexeme.unplaced)) := by
  rw [variableGroups, variableGroups]
  refine (mirrors_typedNames ts).andThen fun group rest _ _ => ?_
  refine mirrors_expect fun _ rest' _ _ => ?_
  rw [peek_unplaced]
  split
  · exact (mirrors_variableGroups rest').map fun others => List.map_append.symm
  · exact mirrors_done rfl rest'
termination_by ts.length
decreasing_by omega

theorem mirrors_variableSection (ts : List Lexeme) :
    (variableSection ts).Mirrors (List.map TypedName.unplaced) (variableSection (ts.map Lexeme.unplaced)) :=
  mirrors_onNext (fun _ _ rest _ _ => mirrors_variableGroups rest) (mirrors_done rfl ts)

theorem mirrors_parameterGroups (ts : List Lexeme) :
    (parameterGroups ts).Mirrors (List.map TypedName.unplaced) (parameterGroups (ts.map Lexeme.unplaced)) := by
  rw [parameterGroups, parameterGroups]
  refine (mirrors_typedNames ts).andThen fun group rest _ _ => ?_
  refine mirrors_onNext (fun _ _ rest' _ _ => ?_) (mirrors_done rfl rest)
  exact (mirrors_parameterGroups rest').map fun others => List.map_append.symm
termination_by ts.length
decreasing_by omega

theorem mirrors_parameters (ts : List Lexeme) :
    (parameters ts).Mirrors (List.map TypedName.unplaced) (parameters (ts.map Lexeme.unplaced)) := by
  refine mirrors_onNext (fun _ _ rest _ _ => ?_) (mirrors_done rfl ts)
  refine (mirrors_parameterGroups rest).andThen fun group rest' _ _ => ?_
  exact mirrors_expect fun _ rest'' _ _ => mirrors_done rfl rest''

mutual

theorem mirrors_procedures (ts : List Lexeme) :
    (procedures ts).Mirrors Declaration.allUnplaced (procedures (ts.map Lexeme.unplaced)) := by
  rw [procedures_eq, procedures_eq, peek_unplaced]
  split
  · refine (mirrors_procedure ts).andThen_of_reads fun first rest hfirst _ _ => ?_
    have hlt := Taking.length_lt_of_reads hfirst
    exact (mirrors_procedures rest).map fun others => by rw [Declaration.allUnplaced]
  · exact mirrors_done (by rw [Declaration.allUnplaced]) ts
termination_by 4 * ts.length + 1
decreasing_by all_goals omega

theorem mirrors_procedure (ts : List Lexeme) :
    (procedure ts).toReply.Mirrors Declaration.unplaced (procedure (ts.map Lexeme.unplaced)).toReply := by
  rw [procedure, procedure]
  refine mirrors_expect fun line rest₀ _ _ => ?_
  refine mirrors_identifier fun name _ rest _ _ => ?_
  refine (mirrors_parameters rest).andThen fun group rest₁ _ _ => ?_
  refine mirrors_expect fun _ rest₂ _ _ => ?_
  refine (mirrors_block rest₂).andThen fun body rest₃ _ _ => ?_
  exact mirrors_expect fun _ rest₄ _ _ => mirrors_done (by rw [Declaration.unplaced]) rest₄
termination_by 4 * ts.length
decreasing_by all_goals omega

theorem mirrors_declarations (ts : List Lexeme) :
    (declarations ts).Mirrors Declaration.allUnplaced (declarations (ts.map Lexeme.unplaced)) := by
  rw [declarations, declarations]
  refine (mirrors_variableSection ts).andThen fun vars rest _ _ => ?_
  exact (mirrors_procedures rest).map fun ds => (Declaration.allUnplaced_variables vars ds).symm
termination_by 4 * ts.length + 2
decreasing_by all_goals omega

theorem mirrors_block (ts : List Lexeme) :
    (block ts).Mirrors Block.unplaced (block (ts.map Lexeme.unplaced)) := by
  rw [block, block]
  refine (mirrors_declarations ts).andThen fun decls rest _ _ => ?_
  exact (mirrors_compound rest).map fun body => by rw [Block.unplaced]
termination_by 4 * ts.length + 3
decreasing_by all_goals omega

end

/-! ## Whole inputs -/

theorem mirrors_program (ts : List Lexeme) :
    (program ts).Mirrors Program.unplaced (program (ts.map Lexeme.unplaced)) := by
  refine mirrors_expect fun line rest _ _ => ?_
  refine mirrors_identifier fun name _ rest₁ _ _ => ?_
  refine mirrors_expect fun _ rest₂ _ _ => ?_
  refine (mirrors_block rest₂).andThen fun body rest₃ _ _ => ?_
  exact mirrors_expect fun _ rest₄ _ _ => mirrors_done rfl rest₄

end Parser

theorem parseProgram_unplaced (ts : List Lexeme) :
    parseProgram (ts.map Lexeme.unplaced) =
      ((parseProgram ts).map Program.unplaced).mapError SyntaxError.unplaced :=
  (Parser.mirrors_program ts).toEnd

theorem parseExpression_unplaced (ts : List Lexeme) :
    parseExpression (ts.map Lexeme.unplaced) =
      ((parseExpression ts).map Expr.unplaced).mapError SyntaxError.unplaced :=
  (Parser.mirrors_expression ts).toEnd

end MiniPascal
