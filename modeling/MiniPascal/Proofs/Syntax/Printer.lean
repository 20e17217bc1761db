import MiniPascal.Proofs.Syntax.Language

/-!
# Printing trees

A tree is written as tokens: each constant, name, operator, `:=`, type and heading word stands on the line that its node
keeps, each variable and each parameter is a group of its own, and an operand is put in parentheses only if it would be
read otherwise without them. What is printed is derived from the grammar, with the tree itself as the tree of the
derivation, and so it is read back.

* `parse_print`: parsing undoes printing, of every expression and of every program with the shape of a parsed one.
-/

namespace MiniPascal

/-! ## Printer -/

/-- A token on a line. Its place on the line does not matter. -/
def Lexeme.onLine (token : Token) (line : Nat) : Lexeme := ⟨token, ⟨0, line, 0⟩, 0⟩

/-- A token whose line no tree keeps. -/
def Lexeme.loose (token : Token) : Lexeme := .onLine token 0

def parenthesize (needed : Bool) (w : List Lexeme) : List Lexeme :=
  if needed then .loose (.mark .leftParen) :: w ++ [.loose (.mark .rightParen)] else w

/-- `+` and `-` bind less tightly than `*`, `div` and `/`. -/
def BinaryOperator.precedence (op : BinaryOperator) : Nat := if op.isAdditive then 1 else 2

/-- Constants, variables and signs bind most tightly. -/
def Expr.precedence : Expr → Nat
  | .binary op _ _ _ => op.precedence
  | _ => 3

/-- Operators of one precedence lean to the left, so that only a right operand needs parentheses among its equals. -/
def Expr.print : Expr → List Lexeme
  | .literal value line => [.onLine value.token line]
  | .variable name line => [.onLine (.identifier name) line]
  | .unary op operand line => .onLine op.token line :: parenthesize (operand.precedence < 3) operand.print
  | .binary op left right line =>
    parenthesize (left.precedence < op.precedence) left.print ++
      .onLine op.token line :: parenthesize (right.precedence ≤ op.precedence) right.print

mutual

def Statement.print : Statement → List Lexeme
  | .compound children => .loose (.keyword .beginBlock) :: Statement.printAll children ++ [.loose (.keyword .endBlock)]
  | .assign target targetLine value line =>
    .onLine (.identifier target) targetLine :: .onLine (.mark .assign) line :: value.print
  | .skip => []

/-- Statements with semicolons between them. -/
def Statement.printAll : List Statement → List Lexeme
  | [] => []
  | [last] => last.print
  | first :: others => first.print ++ .loose (.mark .semicolon) :: Statement.printAll others

end

def TypedName.print (v : TypedName) : List Lexeme :=
  [.onLine (.identifier v.name) v.line, .loose (.mark .colon), .onLine v.type.name.token v.type.line]

/-- Parameters with semicolons between them. -/
def TypedName.printAll : List TypedName → List Lexeme
  | [] => []
  | [last] => last.print
  | first :: others => first.print ++ .loose (.mark .semicolon) :: TypedName.printAll others

def printParameters : List TypedName → List Lexeme
  | [] => []
  | ps => .loose (.mark .leftParen) :: TypedName.printAll ps ++ [.loose (.mark .rightParen)]

/-- The word before the variables, if there are any. -/
def printVar : List Declaration → List Lexeme
  | .variable _ :: _ => [.loose (.keyword .var)]
  | _ => []

mutual

def Declaration.print : Declaration → List Lexeme
  | .variable declared => declared.print ++ [.loose (.mark .semicolon)]
  | .procedure name parameters block line =>
    .onLine (.keyword .procedure) line :: .loose (.identifier name) :: printParameters parameters ++
      .loose (.mark .semicolon) :: block.print ++ [.loose (.mark .semicolon)]

def Block.print : Block → List Lexeme
  | ⟨declarations, body⟩ =>
    (printVar declarations ++ Declaration.printAll declarations) ++
      (.loose (.keyword .beginBlock) :: Statement.printAll body ++ [.loose (.keyword .endBlock)])

def Declaration.printAll : List Declaration → List Lexeme
  | [] => []
  | first :: others => first.print ++ Declaration.printAll others

end

def Program.print (p : Program) : List Lexeme :=
  .onLine (.keyword .program) p.line :: .loose (.identifier p.name) :: .loose (.mark .semicolon) :: p.block.print ++
    [.loose (.mark .dot)]

/-! ## The shape of parsed programs -/

mutual

/-- Every compound inside has a child. -/
def Statement.Filled : Statement → Prop
  | .compound children => children ≠ [] ∧ Statement.AllFilled children
  | .assign _ _ _ _ => True
  | .skip => True

def Statement.AllFilled : List Statement → Prop
  | [] => True
  | first :: others => first.Filled ∧ Statement.AllFilled others

end

def Declaration.isProcedure : Declaration → Bool
  | .variable _ => false
  | .procedure _ _ _ _ => true

/-- No variable is declared behind a procedure. -/
def VariablesFirst (ds : List Declaration) : Prop :=
  ds.Pairwise fun earlier later => earlier.isProcedure = true → later.isProcedure = true

mutual

def Declaration.WellShaped : Declaration → Prop
  | .variable _ => True
  | .procedure _ _ block _ => block.WellShaped

/-- At every depth variables come before procedures, and no compound is without a child. -/
def Block.WellShaped : Block → Prop
  | ⟨declarations, body⟩ =>
    VariablesFirst declarations ∧ Declaration.AllWellShaped declarations ∧ body ≠ [] ∧ Statement.AllFilled body

def Declaration.AllWellShaped : List Declaration → Prop
  | [] => True
  | first :: others => first.WellShaped ∧ Declaration.AllWellShaped others

end

def Program.WellShaped (p : Program) : Prop := p.block.WellShaped

namespace Grammar

/-! ## Printed expressions -/

theorem factorOf_parenthesize {w : List Lexeme} {e : Expr} (h : ExpressionOf w e) : FactorOf (parenthesize true w) e :=
  .parentheses rfl h rfl

/-- The printed expression is a word of each symbol that its precedence allows. -/
structure Printed (e : Expr) : Prop where
  factor : 3 ≤ e.precedence → FactorOf e.print e
  term : 2 ≤ e.precedence → TermOf e.print e
  expression : ExpressionOf e.print e

namespace Printed

variable {e : Expr} (h : Printed e)

include h

theorem factorOf {needed : Bool} (hneeded : e.precedence < 3 → needed = true) :
    FactorOf (parenthesize needed e.print) e := by
  cases needed with
  | true => exact factorOf_parenthesize h.expression
  | false => exact h.factor (Nat.le_of_not_lt fun hlt => by cases hneeded hlt)

theorem termOf {needed : Bool} (hneeded : e.precedence < 2 → needed = true) :
    TermOf (parenthesize needed e.print) e := by
  cases needed with
  | true => exact .factor (factorOf_parenthesize h.expression)
  | false => exact h.term (Nat.le_of_not_lt fun hlt => by cases hneeded hlt)

theorem expressionOf (needed : Bool) : ExpressionOf (parenthesize needed e.print) e := by
  cases needed with
  | true => exact .term (.factor (factorOf_parenthesize h.expression))
  | false => exact h.expression

end Printed

theorem Printed.ofFactor {e : Expr} (h : FactorOf e.print e) : Printed e :=
  ⟨fun _ => h, fun _ => .factor h, .term (.factor h)⟩

theorem printed : ∀ e : Expr, Printed e
  | .literal _ _ => .ofFactor (.constant rfl)
  | .variable _ _ => .ofFactor (.variable rfl)
  | .unary _ operand _ => .ofFactor (.sign rfl ((printed operand).factorOf fun h => decide_eq_true h))
  | .binary op left right line => by
    cases hop : op.isAdditive with
    | true =>
      have hprec : op.precedence = 1 := by simp [BinaryOperator.precedence, hop]
      refine ⟨fun h => ?_, fun h => ?_, .chain ((printed left).expressionOf _) rfl hop ((printed right).termOf ?_)⟩
      · rw [Expr.precedence, hprec] at h; omega
      · rw [Expr.precedence, hprec] at h; omega
      · intro h; rw [hprec]; exact decide_eq_true (by omega)
    | false =>
      have hprec : op.precedence = 2 := by simp [BinaryOperator.precedence, hop]
      have hterm : TermOf (Expr.binary op left right line).print (.binary op left right line) := by
        refine .chain ((printed left).termOf ?_) rfl hop ((printed right).factorOf ?_)
        · intro h; rw [hprec]; exact decide_eq_true h
        · intro h; rw [hprec]; exact decide_eq_true (by omega)
      refine ⟨fun h => ?_, fun _ => hterm, .term hterm⟩
      rw [Expr.precedence, hprec] at h; omega

/-! ## Printed statements -/

mutual

theorem statementOf_print : ∀ {s : Statement}, s.Filled → StatementOf s.print s
  | .compound _, h => .compound (.mk rfl (statementsOf_print h.1 h.2) rfl)
  | .assign _ _ value _, _ => .assignment rfl rfl (printed value).expression
  | .skip, _ => .empty

theorem statementsOf_print : ∀ {ss : List Statement}, ss ≠ [] → Statement.AllFilled ss →
    StatementsOf (Statement.printAll ss) ss
  | [], hne, _ => absurd rfl hne
  | [_], _, h => .last (statementOf_print h.1)
  | _ :: _ :: _, _, h => .more (statementOf_print h.1) rfl (statementsOf_print (by nofun) h.2)

end

theorem compoundOf_print {ss : List Statement} (hne : ss ≠ []) (h : Statement.AllFilled ss) :
    CompoundOf (.loose (.keyword .beginBlock) :: Statement.printAll ss ++ [.loose (.keyword .endBlock)]) ss :=
  .mk rfl (statementsOf_print hne h) rfl

/-! ## Printed declarations -/

theorem groupOf_print (v : TypedName) : GroupOf v.print [v] := by
  have hnames : NamesOf [.onLine (.identifier v.name) v.line] [(v.name, v.line)] := .last rfl
  have htype : (Lexeme.onLine v.type.name.token v.type.line).token = v.type.name.token := rfl
  exact GroupOf.mk hnames rfl htype

theorem variablesOf_print : ∀ {vs : List TypedName}, vs ≠ [] →
    VariablesOf (Declaration.printAll (vs.map .variable)) vs
  | [], hne => absurd rfl hne
  | [v], _ => by simpa [Declaration.printAll, Declaration.print] using VariablesOf.last (groupOf_print v) rfl
  | v :: v' :: vs, _ => by
    have hothers : VariablesOf (Declaration.printAll ((v' :: vs).map .variable)) (v' :: vs) :=
      variablesOf_print (by nofun)
    simpa [Declaration.printAll, Declaration.print] using VariablesOf.more (groupOf_print v) rfl hothers

theorem parameterGroupsOf_print : ∀ {ps : List TypedName}, ps ≠ [] → ParameterGroupsOf (TypedName.printAll ps) ps
  | [], hne => absurd rfl hne
  | [p], _ => .last (groupOf_print p)
  | p :: p' :: ps, _ => .more (groupOf_print p) rfl (parameterGroupsOf_print (by nofun))

theorem parametersOf_print : ∀ ps : List TypedName, ParametersOf (printParameters ps) ps
  | [] => .none
  | _ :: _ => .some rfl (parameterGroupsOf_print (by nofun)) rfl

theorem exists_split : ∀ {ds : List Declaration}, VariablesFirst ds →
    ∃ (vs : List TypedName) (procs : List Declaration),
      ds = vs.map .variable ++ procs ∧ ∀ d ∈ procs, d.isProcedure = true
  | [], _ => ⟨[], [], rfl, by nofun⟩
  | .variable v :: ds, h => by
    obtain ⟨vs, procs, rfl, hprocs⟩ := exists_split (List.pairwise_cons.mp h).2
    exact ⟨v :: vs, procs, rfl, hprocs⟩
  | .procedure name parameters block line :: ds, h => by
    refine ⟨[], .procedure name parameters block line :: ds, rfl, fun d hd => ?_⟩
    rcases List.mem_cons.mp hd with rfl | hd
    · rfl
    · exact (List.pairwise_cons.mp h).1 d hd rfl

theorem printAll_append : ∀ ds ds' : List Declaration,
    Declaration.printAll (ds ++ ds') = Declaration.printAll ds ++ Declaration.printAll ds'
  | [], _ => rfl
  | d :: ds, ds' => by
    rw [List.cons_append, Declaration.printAll, Declaration.printAll, printAll_append ds ds', List.append_assoc]

theorem proceduresOf_print : ∀ {ds : List Declaration}, (∀ d ∈ ds, ProcedureOf d.print d) →
    ProceduresOf (Declaration.printAll ds) ds
  | [], _ => .none
  | _ :: _, h => .more (h _ List.mem_cons_self) (proceduresOf_print fun d hd => h d (List.mem_cons_of_mem _ hd))

theorem declarationsOf_print {ds : List Declaration} (hfirst : VariablesFirst ds)
    (h : ∀ d ∈ ds, d.isProcedure = true → ProcedureOf d.print d) :
    DeclarationsOf (printVar ds ++ Declaration.printAll ds) ds := by
  obtain ⟨vs, procs, rfl, hprocs⟩ := exists_split hfirst
  have hprocedures : ProceduresOf (Declaration.printAll procs) procs :=
    proceduresOf_print fun d hd => h d (List.mem_append_right _ hd) (hprocs d hd)
  rw [printAll_append, ← List.append_assoc]
  refine .mk ?_ hprocedures
  cases vs with
  | nil =>
    -- without variables the first declaration is a procedure, or there is none
    have hvar : printVar (([] : List TypedName).map .variable ++ procs) = [] := by
      rcases procs with _ | ⟨_ | _, _⟩
      · rfl
      · cases hprocs _ List.mem_cons_self
      · rfl
    rw [hvar]
    exact .none
  | cons v vs => exact .some rfl (variablesOf_print (by nofun))

theorem blockOf_print {b : Block} (h : b.WellShaped)
    (hprocs : ∀ d ∈ b.declarations, d.isProcedure = true → ProcedureOf d.print d) : BlockOf b.print b := by
  obtain ⟨ds, body⟩ := b
  obtain ⟨hfirst, -, hne, hfilled⟩ := h
  exact .mk (declarationsOf_print hfirst hprocs) (compoundOf_print hne hfilled)

mutual

theorem procedureOf_print : ∀ {d : Declaration}, d.WellShaped → d.isProcedure = true → ProcedureOf d.print d
  | .variable _, _, h => by cases h
  | .procedure _ parameters ⟨ds, _⟩ _, h, _ =>
    .mk rfl rfl (parametersOf_print parameters) rfl (blockOf_print h (procedureOf_print_of_mem h.2.1)) rfl

theorem procedureOf_print_of_mem : ∀ {ds : List Declaration}, Declaration.AllWellShaped ds →
    ∀ d ∈ ds, d.isProcedure = true → ProcedureOf d.print d
  | _ :: _, h, _, .head _, hd => procedureOf_print h.1 hd
  | _ :: _, h, d, .tail _ hmem, hd => procedureOf_print_of_mem h.2 d hmem hd

end

theorem programOf_print {p : Program} (h : p.WellShaped) : ProgramOf p.print p := by
  obtain ⟨name, ⟨ds, body⟩, line⟩ := p
  exact .mk rfl rfl rfl (blockOf_print h (procedureOf_print_of_mem h.2.1)) rfl

/-! ## The shape of derived trees -/

mutual

theorem filled_of_statementOf : ∀ {w : List Lexeme} {s : Statement}, StatementOf w s → s.Filled
  | _, _, .compound (.mk _ hw _) => filled_of_statementsOf hw
  | _, _, .assignment _ _ _ => trivial
  | _, _, .empty => trivial

theorem filled_of_statementsOf : ∀ {w : List Lexeme} {ss : List Statement}, StatementsOf w ss →
    ss ≠ [] ∧ Statement.AllFilled ss
  | _, _, .last hw => ⟨by nofun, filled_of_statementOf hw, trivial⟩
  | _, _, .more hw _ hv => ⟨by nofun, filled_of_statementOf hw, (filled_of_statementsOf hv).2⟩

end

theorem variablesFirst_append {ds : List Declaration} (vs : List TypedName) (h : ∀ d ∈ ds, d.isProcedure = true) :
    VariablesFirst (vs.map .variable ++ ds) := by
  refine List.pairwise_append.mpr ⟨List.pairwise_map.mpr ?_, ?_, ?_⟩
  · exact List.pairwise_of_forall fun _ _ h => by cases h
  · exact List.pairwise_of_forall_mem_list fun _ _ d hd _ => h d hd
  · intro d _ d' hd' _
    exact h d' hd'

theorem allWellShaped_append {ds : List Declaration} (h : Declaration.AllWellShaped ds) : ∀ vs : List TypedName,
    Declaration.AllWellShaped (vs.map .variable ++ ds)
  | [] => h
  | _ :: vs => ⟨trivial, allWellShaped_append h vs⟩

mutual

theorem wellShaped_of_procedureOf : ∀ {w : List Lexeme} {d : Declaration}, ProcedureOf w d →
    d.isProcedure = true ∧ d.WellShaped
  | _, _, .mk _ _ _ _ hv _ => ⟨rfl, wellShaped_of_blockOf hv⟩

theorem wellShaped_of_proceduresOf : ∀ {w : List Lexeme} {ds : List Declaration}, ProceduresOf w ds →
    (∀ d ∈ ds, d.isProcedure = true) ∧ Declaration.AllWellShaped ds
  | _, _, .none => ⟨by nofun, trivial⟩
  | _, _, .more hw hv =>
    have hfirst := wellShaped_of_procedureOf hw
    have hothers := wellShaped_of_proceduresOf hv
    ⟨List.forall_mem_cons.mpr ⟨hfirst.1, hothers.1⟩, hfirst.2, hothers.2⟩

theorem wellShaped_of_blockOf : ∀ {w : List Lexeme} {b : Block}, BlockOf w b → b.WellShaped
  | _, _, .mk (.mk _ hprocs) (.mk _ hbody _) =>
    have h := wellShaped_of_proceduresOf hprocs
    ⟨variablesFirst_append _ h.1, allWellShaped_append h.2 _, filled_of_statementsOf hbody⟩

end

theorem wellShaped_of_programOf {w : List Lexeme} {p : Program} (h : ProgramOf w p) : p.WellShaped := by
  obtain ⟨-, -, -, hw, -⟩ := h
  exact wellShaped_of_blockOf hw

end Grammar

/-! ## Round trip -/

theorem upToEnd_append {w : List Lexeme} (h : EndFree w) (position : Position) (stop : Nat) :
    UpToEnd (w ++ [⟨.endOfInput, position, stop⟩]) w :=
  ⟨h, .inr ⟨⟨.endOfInput, position, stop⟩, [], rfl, (List.append_nil _).symm⟩⟩

/-- **Parsing undoes printing**, lines included, and only trees of the printed shape are ever parsed. -/
theorem parse_print :
    (∀ (e : Expr) (position : Position) (stop : Nat),
      parseExpression (e.print ++ [⟨.endOfInput, position, stop⟩]) = .ok e) ∧
    (∀ p : Program, p.WellShaped → ∀ (position : Position) (stop : Nat),
      parseProgram (p.print ++ [⟨.endOfInput, position, stop⟩]) = .ok p) ∧
    ∀ (ts : List Lexeme) (p : Program), parseProgram ts = .ok p → p.WellShaped := by
  refine ⟨fun e position stop => ?_, fun p hp position stop => ?_, fun ts p h => ?_⟩
  · have he := (Grammar.printed e).expression
    exact Parser.parseExpression_eq_ok.mpr ⟨_, upToEnd_append (Grammar.endFree_expressionOf he) position stop, he⟩
  · have hw := Grammar.programOf_print hp
    exact Parser.parseProgram_eq_ok.mpr ⟨_, upToEnd_append (Grammar.endFree_programOf hw) position stop, hw⟩
  · obtain ⟨w, -, hw⟩ := Parser.parseProgram_eq_ok.mp h
    exact Grammar.wellShaped_of_programOf hw

/-- A procedure with two parameters, a nested compound, and operands that need parentheses on either side. -/
theorem parse_print_procedure :
    let difference : Expr := .binary .subtract (.variable "a" 5) (.binary .add (.variable "b" 5) (.variable "a" 6) 6) 5
    let value : Expr := .binary .multiply (.unary .minus difference 4) difference 6
    let inner : Block := ⟨[.variable ⟨"c", ⟨.real, 3⟩, 3⟩], [.compound [.assign "c" 4 value 4, .skip]]⟩
    let p : Program := ⟨"p", ⟨[.variable ⟨"x", ⟨.integer, 1⟩, 1⟩,
      .procedure "q" [⟨"a", ⟨.real, 2⟩, 2⟩, ⟨"b", ⟨.real, 2⟩, 2⟩] inner 2], [.skip]⟩, 1⟩
    p.WellShaped ∧ parseProgram (p.print ++ [⟨.endOfInput, ⟨0, 9, 0⟩, 0⟩]) = .ok p := by
  intro difference value inner p
  have hinner : inner.WellShaped :=
    ⟨List.pairwise_singleton _ _, ⟨trivial, trivial⟩, by nofun, ⟨by nofun, trivial, trivial, trivial⟩, trivial⟩
  have hfirst : VariablesFirst p.block.declarations := .cons (fun _ _ h => by cases h) (List.pairwise_singleton _ _)
  have hp : p.WellShaped := ⟨hfirst, ⟨trivial, hinner, trivial⟩, by nofun, trivial, trivial⟩
  have hparse := parse_print.2.1 p hp ⟨0, 9, 0⟩ 0
  exact ⟨parse_print.2.2 _ p hparse, hparse⟩

end MiniPascal
