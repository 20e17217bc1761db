import MiniPascal.Proofs.Syntax.Language

/-!
# Where the nodes of a tree stand

A tree keeps lines, and each of them is the line of a token that its node was derived from (`Placed`): a constant's or a
name's own token, the operator of an operation, the `:=` of an assignment, the word `procedure` before the name of a
procedure. This is read off the derivation, whose word is a part of the whole input.

* `placed_of_parseProgram`, `placed_of_parseExpression`.
-/

namespace MiniPascal

/-! ## Placed trees -/

/-- One of the tokens is the given one, and stands on the line. -/
def StandsOn (ts : List Lexeme) (line : Nat) (token : Token) : Prop := ∃ t ∈ ts, t.token = token ∧ t.line = line

/-- The word `procedure` stands on the line, and directly behind it the name. -/
def HeadingOn (ts : List Lexeme) (line : Nat) (name : String) : Prop :=
  ∃ t t', [t, t'] <:+: ts ∧ t.token = .keyword .procedure ∧ t.line = line ∧ t'.token = .identifier name

def Expr.Placed (ts : List Lexeme) : Expr → Prop
  | .literal value line => StandsOn ts line value.token
  | .variable name line => StandsOn ts line (.identifier name)
  | .unary op operand line => StandsOn ts line op.token ∧ operand.Placed ts
  | .binary op left right line => StandsOn ts line op.token ∧ left.Placed ts ∧ right.Placed ts

mutual

def Statement.Placed (ts : List Lexeme) : Statement → Prop
  | .compound children => Statement.AllPlaced ts children
  | .assign target targetLine value line =>
    StandsOn ts targetLine (.identifier target) ∧ StandsOn ts line (.mark .assign) ∧ value.Placed ts
  | .skip => True

def Statement.AllPlaced (ts : List Lexeme) : List Statement → Prop
  | [] => True
  | first :: others => first.Placed ts ∧ Statement.AllPlaced ts others

end

/-- A name and its type each stand on their own line. -/
structure TypedName.Placed (ts : List Lexeme) (v : TypedName) : Prop where
  name : StandsOn ts v.line (.identifier v.name)
  type : StandsOn ts v.type.line v.type.name.token

mutual

def Declaration.Placed (ts : List Lexeme) : Declaration → Prop
  | .variable declared => declared.Placed ts
  | .procedure name parameters block line =>
    HeadingOn ts line name ∧ (∀ p ∈ parameters, p.Placed ts) ∧ block.Placed ts

def Block.Placed (ts : List Lexeme) : Block → Prop
  | ⟨declarations, body⟩ => Declaration.AllPlaced ts declarations ∧ Statement.AllPlaced ts body

def Declaration.AllPlaced (ts : List Lexeme) : List Declaration → Prop
  | [] => True
  | first :: others => first.Placed ts ∧ Declaration.AllPlaced ts others

end

structure Program.Placed (ts : List Lexeme) (p : Program) : Prop where
  heading : StandsOn ts p.line (.keyword .program)
  block : p.block.Placed ts

namespace Grammar

variable {ts : List Lexeme}

/-! ## Parts of an input -/

theorem infix_left {w v : List Lexeme} (h : w ++ v <:+: ts) : w <:+: ts := (List.prefix_append w v).isInfix.trans h

theorem infix_right {w v : List Lexeme} (h : w ++ v <:+: ts) : v <:+: ts := (List.suffix_append w v).isInfix.trans h

theorem infix_tail {t : Lexeme} {w : List Lexeme} (h : t :: w <:+: ts) : w <:+: ts :=
  (List.suffix_cons t w).isInfix.trans h

theorem standsOn_head {t : Lexeme} {w : List Lexeme} {token : Token} (h : t :: w <:+: ts) (ht : t.token = token) :
    StandsOn ts t.line token :=
  ⟨t, h.subset List.mem_cons_self, ht, rfl⟩

/-! ## Expressions and statements -/

mutual

theorem placed_factorOf : ∀ {w : List Lexeme} {e : Expr}, FactorOf w e → w <:+: ts → e.Placed ts
  | _, _, .constant ht, h => standsOn_head h ht
  | _, _, .parentheses _ hw _, h => placed_expressionOf hw (infix_left (infix_tail h))
  | _, _, .sign ht hw, h => ⟨standsOn_head h ht, placed_factorOf hw (infix_tail h)⟩
  | _, _, .variable ht, h => standsOn_head h ht

theorem placed_termOf : ∀ {w : List Lexeme} {e : Expr}, TermOf w e → w <:+: ts → e.Placed ts
  | _, _, .factor hw, h => placed_factorOf hw h
  | _, _, .chain hw ht _ hv, h =>
    ⟨standsOn_head (infix_right h) ht, placed_termOf hw (infix_left h), placed_factorOf hv (infix_tail (infix_right h))⟩

theorem placed_expressionOf : ∀ {w : List Lexeme} {e : Expr}, ExpressionOf w e → w <:+: ts → e.Placed ts
  | _, _, .term hw, h => placed_termOf hw h
  | _, _, .chain hw ht _ hv, h =>
    ⟨standsOn_head (infix_right h) ht, placed_expressionOf hw (infix_left h),
      placed_termOf hv (infix_tail (infix_right h))⟩

end

mutual

theorem placed_compoundOf : ∀ {w : List Lexeme} {children : List Statement}, CompoundOf w children → w <:+: ts →
    Statement.AllPlaced ts children
  | _, _, .mk _ hw _, h => placed_statementsOf hw (infix_left (infix_tail h))

theorem placed_statementOf : ∀ {w : List Lexeme} {s : Statement}, StatementOf w s → w <:+: ts → s.Placed ts
  | _, _, .compound hw, h => by
    rw [Statement.Placed]
    exact placed_compoundOf hw h
  | _, _, .assignment ht₁ ht₂ hw, h => by
    rw [Statement.Placed]
    exact ⟨standsOn_head h ht₁, standsOn_head (infix_tail h) ht₂, placed_expressionOf hw (infix_tail (infix_tail h))⟩
  | _, _, .empty, _ => by
    rw [Statement.Placed]
    trivial

theorem placed_statementsOf : ∀ {w : List Lexeme} {ss : List Statement}, StatementsOf w ss → w <:+: ts →
    Statement.AllPlaced ts ss
  | _, _, .last hw, h => by
    rw [Statement.AllPlaced, Statement.AllPlaced]
    exact ⟨placed_statementOf hw h, trivial⟩
  | _, _, .more hw _ hv, h => by
    rw [Statement.AllPlaced]
    exact ⟨placed_statementOf hw (infix_left h), placed_statementsOf hv (infix_tail (infix_right h))⟩

end

/-! ## Declarations -/

theorem placed_namesOf : ∀ {w : List Lexeme} {ns : List (String × Nat)}, NamesOf w ns → w <:+: ts →
    ∀ n ∈ ns, StandsOn ts n.2 (.identifier n.1)
  | _, _, .last ht, h => List.forall_mem_singleton.mpr (standsOn_head h ht)
  | _, _, .more ht₁ _ hw, h =>
    List.forall_mem_cons.mpr ⟨standsOn_head h ht₁, placed_namesOf hw (infix_tail (infix_tail h))⟩

theorem placed_groupOf {w : List Lexeme} {group : List TypedName} (hw : GroupOf w group) (h : w <:+: ts) :
    ∀ v ∈ group, v.Placed ts := by
  obtain ⟨hnames, -, htype⟩ := hw
  intro v hv
  obtain ⟨n, hn, rfl⟩ := List.mem_map.mp hv
  exact ⟨placed_namesOf hnames (infix_left h) n hn, standsOn_head (infix_tail (infix_right h)) htype⟩

theorem placed_variablesOf : ∀ {w : List Lexeme} {declared : List TypedName}, VariablesOf w declared → w <:+: ts →
    ∀ v ∈ declared, v.Placed ts
  | _, _, .last hw _, h => placed_groupOf hw (infix_left h)
  | _, _, .more hw _ hv, h =>
    List.forall_mem_append.mpr ⟨placed_groupOf hw (infix_left h), placed_variablesOf hv (infix_tail (infix_right h))⟩

theorem placed_variableSectionOf {w : List Lexeme} {declared : List TypedName} (hw : VariableSectionOf w declared)
    (h : w <:+: ts) : ∀ v ∈ declared, v.Placed ts := by
  cases hw with
  | none => nofun
  | some _ hw => exact placed_variablesOf hw (infix_tail h)

theorem placed_parameterGroupsOf : ∀ {w : List Lexeme} {declared : List TypedName}, ParameterGroupsOf w declared →
    w <:+: ts → ∀ v ∈ declared, v.Placed ts
  | _, _, .last hw, h => placed_groupOf hw h
  | _, _, .more hw _ hv, h =>
    List.forall_mem_append.mpr
      ⟨placed_groupOf hw (infix_left h), placed_parameterGroupsOf hv (infix_tail (infix_right h))⟩

theorem placed_parametersOf {w : List Lexeme} {declared : List TypedName} (hw : ParametersOf w declared)
    (h : w <:+: ts) : ∀ v ∈ declared, v.Placed ts := by
  cases hw with
  | none => nofun
  | some _ hw _ => exact placed_parameterGroupsOf hw (infix_left (infix_tail h))

theorem allPlaced_append {ds others : List Declaration} (hds : Declaration.AllPlaced ts ds)
    (hothers : Declaration.AllPlaced ts others) : Declaration.AllPlaced ts (ds ++ others) := by
  induction ds with
  | nil => exact hothers
  | cons first rest ih =>
    rw [Declaration.AllPlaced] at hds
    rw [List.cons_append, Declaration.AllPlaced]
    exact ⟨hds.1, ih hds.2⟩

theorem allPlaced_variables {vs : List TypedName} (h : ∀ v ∈ vs, v.Placed ts) :
    Declaration.AllPlaced ts (vs.map .variable) := by
  induction vs with
  | nil =>
    rw [List.map_nil, Declaration.AllPlaced]
    trivial
  | cons first rest ih =>
    rw [List.map_cons, Declaration.AllPlaced, Declaration.Placed]
    obtain ⟨hfirst, hrest⟩ := List.forall_mem_cons.mp h
    exact ⟨hfirst, ih hrest⟩

mutual

theorem placed_procedureOf : ∀ {w : List Lexeme} {d : Declaration}, ProcedureOf w d → w <:+: ts → d.Placed ts
  | _, _, @ProcedureOf.mk t₁ t₂ t₃ t₄ name w v parameters block ht₁ ht₂ hw _ hv _, h => by
    rw [Declaration.Placed]
    -- the word and the name are neighbours in the input, which is why words are parts of it and not just subsets
    have hheading : t₁ :: t₂ :: w <:+: ts := infix_left (infix_left h)
    have hpair : [t₁, t₂] <:+: ts := infix_left (w := [t₁, t₂]) hheading
    refine ⟨⟨t₁, t₂, hpair, ht₁, rfl, ht₂⟩, ?_, ?_⟩
    · exact placed_parametersOf hw (infix_tail (infix_tail hheading))
    · exact placed_blockOf hv (infix_tail (infix_right (infix_left h)))

theorem placed_proceduresOf : ∀ {w : List Lexeme} {ds : List Declaration}, ProceduresOf w ds → w <:+: ts →
    Declaration.AllPlaced ts ds
  | _, _, .none, _ => by
    rw [Declaration.AllPlaced]
    trivial
  | _, _, .more hw hv, h => by
    rw [Declaration.AllPlaced]
    exact ⟨placed_procedureOf hw (infix_left h), placed_proceduresOf hv (infix_right h)⟩

theorem placed_declarationsOf : ∀ {w : List Lexeme} {ds : List Declaration}, DeclarationsOf w ds → w <:+: ts →
    Declaration.AllPlaced ts ds
  | _, _, .mk hw hv, h => by
    refine allPlaced_append (allPlaced_variables ?_) (placed_proceduresOf hv (infix_right h))
    exact placed_variableSectionOf hw (infix_left h)

theorem placed_blockOf : ∀ {w : List Lexeme} {b : Block}, BlockOf w b → w <:+: ts → b.Placed ts
  | _, _, .mk hw hv, h => by
    rw [Block.Placed]
    exact ⟨placed_declarationsOf hw (infix_left h), placed_compoundOf hv (infix_right h)⟩

end

theorem placed_programOf {w : List Lexeme} {p : Program} (hw : ProgramOf w p) (h : w <:+: ts) : p.Placed ts := by
  obtain ⟨ht₁, -, -, hblock, -⟩ := hw
  refine ⟨standsOn_head h ht₁, placed_blockOf hblock ?_⟩
  exact infix_left (infix_tail (infix_tail (infix_tail h)))

end Grammar

/-! ## Parsed trees -/

theorem UpToEnd.isInfix {ts w : List Lexeme} (h : UpToEnd ts w) : w <:+: ts := by
  obtain ⟨-, rfl | ⟨stop, rest, -, rfl⟩⟩ := h
  · exact List.infix_rfl
  · rw [List.append_assoc]
    exact (List.prefix_append w _).isInfix

/-- Every line of a parsed program is that of the right token. -/
theorem placed_of_parseProgram {ts : List Lexeme} {p : Program} (h : parseProgram ts = .ok p) : p.Placed ts := by
  obtain ⟨w, hw, hp⟩ := Parser.parseProgram_eq_ok.mp h
  exact Grammar.placed_programOf hp hw.isInfix

theorem placed_of_parseExpression {ts : List Lexeme} {e : Expr} (h : parseExpression ts = .ok e) : e.Placed ts := by
  obtain ⟨w, hw, he⟩ := Parser.parseExpression_eq_ok.mp h
  exact Grammar.placed_expressionOf he hw.isInfix

end MiniPascal
