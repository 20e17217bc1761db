import MiniPascal.Proofs.Syntax.Reading

/-!
# The parser reads every word of the grammar

A word of a symbol is read by its rule up to its end, whatever follows it, as long as the next token cannot go on with
the word. A factor needs no such condition. A chain is read with the operators that follow it, so its statement says
where the rule arrives behind the word: at the rest of the chain.

* `Parser.reads_programOf`, `Parser.reads_expressionOf`.
-/

namespace MiniPascal.Parser

open Grammar

/-! ## What may follow -/

/-- The next token goes on with no chain. -/
def EndsExpression (rest : List Lexeme) : Prop :=
  peek rest = .mark .rightParen ∨ peek rest = .mark .semicolon ∨ peek rest = .keyword .endBlock ∨
    peek rest = .endOfInput

theorem stops_of_peek {rest : List Lexeme} {kind : Token.Kind} (h : peek rest ≠ kind) :
    Stops (Token.is? kind) rest := by
  rintro t tail rfl
  exact if_neg h

theorem EndsExpression.stops_multiplicative {rest : List Lexeme} (h : EndsExpression rest) :
    Stops Token.multiplicative? rest := by
  rintro ⟨token, position, stop⟩ tail rfl
  cases token with
  | keyword word => cases word <;> simp_all [EndsExpression, peek, Lexeme.kind, Token.kind, Token.multiplicative?]
  | mark m => cases m <;> simp_all [EndsExpression, peek, Lexeme.kind, Token.kind, Token.multiplicative?]
  | _ => rfl

theorem EndsExpression.stops_additive {rest : List Lexeme} (h : EndsExpression rest) :
    Stops Token.additive? rest := by
  rintro ⟨token, position, stop⟩ tail rfl
  cases token with
  | mark m => cases m <;> simp_all [EndsExpression, peek, Lexeme.kind, Token.kind, Token.additive?]
  | _ => rfl

theorem peek_cons_mark {t : Lexeme} {m : Mark} (h : t.token = .mark m) (tail : List Lexeme) :
    peek (t :: tail) = .mark m := kind_eq_mark.mpr h

theorem peek_cons_keyword {t : Lexeme} {word : Keyword} (h : t.token = .keyword word) (tail : List Lexeme) :
    peek (t :: tail) = .keyword word := kind_eq_keyword.mpr h

theorem peek_cons_identifier {t : Lexeme} {name : String} (h : t.token = .identifier name) (tail : List Lexeme) :
    peek (t :: tail) = .identifier := congrArg Token.kind h

/-! ## Expressions -/

/-- An operator between terms ends the chain of factors before it. -/
theorem multiplicative?_token {op : BinaryOperator} (hop : op.isAdditive = true) :
    op.token.multiplicative? = none := by
  cases op with
  | add => rfl
  | subtract => rfl
  | multiply => cases hop
  | quotient => cases hop
  | divide => cases hop

theorem reads_multiplicativeRest {rest : List Lexeme} (h : Stops Token.multiplicative? rest) (e : Expr) :
    (multiplicativeRest e rest).Reads e rest := by
  rw [multiplicativeRest, reads_onNext_of_stops h]
  exact reads_done_self e rest

theorem reads_additiveRest {rest : List Lexeme} (h : Stops Token.additive? rest) (e : Expr) :
    (additiveRest e rest).Reads e rest := by
  rw [additiveRest, reads_onNext_of_stops h]
  exact reads_done_self e rest

mutual

theorem reads_factorOf : ∀ {w : List Lexeme} {e : Expr}, FactorOf w e → ∀ rest, (factor (w ++ rest)).Reads e rest
  | _, _, @FactorOf.constant t value ht, rest => by
    have hsign : t.token.sign? = none := by rw [ht]; cases value <;> rfl
    rw [List.singleton_append, factor, reads_onNext_of_stops (stops_cons hsign),
      reads_onNext_of_some (value?_eq_some.mpr ht)]
    exact reads_done_self _ rest
  | _, _, @FactorOf.parentheses t₁ t₂ w e ht₁ hw ht₂, rest => by
    have hsign : t₁.token.sign? = none := by rw [ht₁]; rfl
    have hvalue : t₁.token.value? = none := by rw [ht₁]; rfl
    have hname : t₁.token.name? = none := by rw [ht₁]; rfl
    rw [List.append_assoc, List.cons_append, List.singleton_append, factor, reads_onNext_of_stops (stops_cons hsign),
      reads_onNext_of_stops (stops_cons hvalue), reads_onNext_of_stops (stops_cons hname),
      reads_onNext_of_some (is?_of_kind (kind_eq_mark.mpr ht₁))]
    have hends : EndsExpression (t₂ :: rest) := .inl (peek_cons_mark ht₂ rest)
    have hinner : (expression (w ++ t₂ :: rest)).Reads e (t₂ :: rest) := by
      rw [expression]
      exact reads_additive hw hends.stops_multiplicative (reads_additiveRest hends.stops_additive e)
    exact hinner.andThen (reads_expect_cons (kind_eq_mark.mpr ht₂) (reads_done_self _ rest))
  | _, _, @FactorOf.sign t op w e ht hw, rest => by
    rw [List.cons_append, factor, reads_onNext_of_some (sign?_eq_some.mpr ht)]
    exact (reads_factorOf hw rest).map _
  | _, _, @FactorOf.variable t name ht, rest => by
    have hsign : t.token.sign? = none := by rw [ht]; rfl
    have hvalue : t.token.value? = none := by rw [ht]; rfl
    rw [List.singleton_append, factor, reads_onNext_of_stops (stops_cons hsign),
      reads_onNext_of_stops (stops_cons hvalue), reads_onNext_of_some (name?_eq_some.mpr ht)]
    exact reads_done_self _ rest

/-- Behind the factors of a word, the rule is where it goes on with their tree. -/
theorem reads_multiplicative : ∀ {w : List Lexeme} {e : Expr}, TermOf w e → ∀ {rest rest' : List Lexeme} {e' : Expr},
    (multiplicativeRest e rest).Reads e' rest' → (multiplicative (w ++ rest)).Reads e' rest'
  | _, _, .factor hw, rest, _, _, h => by
    rw [multiplicative]
    exact (reads_factorOf hw rest).andThen h
  | _, _, @TermOf.chain t op w v left right hw ht hop hv, rest, rest', e', h => by
    have hrest : (multiplicativeRest left (t :: (v ++ rest))).Reads e' rest' := by
      rw [multiplicativeRest, reads_onNext_of_some (multiplicative?_eq_some.mpr ⟨ht, hop⟩)]
      exact (reads_factorOf hv rest).andThen h
    rw [List.append_assoc, List.cons_append]
    exact reads_multiplicative hw hrest

theorem reads_additive : ∀ {w : List Lexeme} {e : Expr}, ExpressionOf w e → ∀ {rest rest' : List Lexeme} {e' : Expr},
    Stops Token.multiplicative? rest → (additiveRest e rest).Reads e' rest' →
      (additive (w ++ rest)).Reads e' rest'
  | _, _, .term hw, rest, _, _, hstops, h => by
    rw [additive]
    exact (reads_multiplicative hw (reads_multiplicativeRest hstops _)).andThen h
  | _, _, @ExpressionOf.chain t op w v left right hw ht hop hv, rest, rest', e', hstops, h => by
    have hrest : (additiveRest left (t :: (v ++ rest))).Reads e' rest' := by
      rw [additiveRest, reads_onNext_of_some (additive?_eq_some.mpr ⟨ht, hop⟩)]
      exact (reads_multiplicative hv (reads_multiplicativeRest hstops _)).andThen h
    rw [List.append_assoc, List.cons_append]
    exact reads_additive hw (stops_cons (ht ▸ multiplicative?_token hop)) hrest

end

theorem reads_expressionOf {w rest : List Lexeme} {e : Expr} (h : ExpressionOf w e) (hrest : EndsExpression rest) :
    (expression (w ++ rest)).Reads e rest := by
  rw [expression]
  exact reads_additive h hrest.stops_multiplicative (reads_additiveRest hrest.stops_additive e)

/-! ## Statements -/

/-- The next token ends a statement. -/
def EndsStatement (rest : List Lexeme) : Prop := peek rest = .mark .semicolon ∨ peek rest = .keyword .endBlock

theorem EndsStatement.endsExpression {rest : List Lexeme} (h : EndsStatement rest) : EndsExpression rest :=
  .inr (h.imp_right .inl)

theorem peek_compoundOf {w : List Lexeme} {children : List Statement} (h : CompoundOf w children)
    (rest : List Lexeme) : peek (w ++ rest) = .keyword .beginBlock := by
  obtain ⟨ht, -, -⟩ := h
  exact peek_cons_keyword ht _

mutual

theorem reads_compoundOf : ∀ {w : List Lexeme} {children : List Statement}, CompoundOf w children →
    ∀ rest, (compound (w ++ rest)).Reads children rest
  | _, _, @CompoundOf.mk t₁ t₂ w children ht₁ hw ht₂, rest => by
    rw [List.append_assoc, List.cons_append, List.singleton_append, compound]
    refine reads_expect_cons (kind_eq_keyword.mpr ht₁) ?_
    refine (reads_statementsOf hw (peek_cons_keyword ht₂ rest)).andThen ?_
    exact reads_expect_cons (kind_eq_keyword.mpr ht₂) (reads_done_self _ rest)

theorem reads_statementOf : ∀ {w : List Lexeme} {s : Statement}, StatementOf w s →
    ∀ {rest : List Lexeme}, EndsStatement rest → (statement (w ++ rest)).Reads s rest
  | _, _, @StatementOf.compound w children hw, rest, _ => by
    rw [statement, peek_compoundOf hw rest]
    exact (reads_compoundOf hw rest).map _
  | _, _, @StatementOf.assignment t₁ t₂ name w value ht₁ ht₂ hw, rest, hrest => by
    rw [List.cons_append, List.cons_append, statement, peek_cons_identifier ht₁]
    refine reads_identifier_cons ht₁ (reads_expect_cons (kind_eq_mark.mpr ht₂) ?_)
    exact (reads_expressionOf hw hrest.endsExpression).map _
  | _, _, .empty, rest, hrest => by
    rw [List.nil_append, statement]
    rcases hrest with h | h <;> rw [h] <;> exact reads_done_self _ rest

theorem reads_statementsOf : ∀ {w : List Lexeme} {ss : List Statement}, StatementsOf w ss →
    ∀ {rest : List Lexeme}, peek rest = .keyword .endBlock → (statements (w ++ rest)).Reads ss rest
  | _, _, @StatementsOf.last w s hw, rest, hrest => by
    rw [statements]
    refine (reads_statementOf hw (.inr hrest)).andThen ?_
    rw [reads_onNext_of_stops (stops_of_peek (by rw [hrest]; decide))]
    exact reads_done_self _ rest
  | _, _, @StatementsOf.more t w v s others hw ht hv, rest, hrest => by
    rw [List.append_assoc, List.cons_append, statements]
    refine (reads_statementOf hw (.inl (peek_cons_mark ht _))).andThen ?_
    rw [reads_onNext_of_some (is?_of_kind (kind_eq_mark.mpr ht))]
    exact (reads_statementsOf hv hrest).map _

end

/-! ## Declarations -/

theorem reads_namesOf {w : List Lexeme} {ns : List (String × Nat)} (h : NamesOf w ns) {rest : List Lexeme}
    (hrest : peek rest ≠ .mark .comma) : (names (w ++ rest)).Reads ns rest := by
  induction h with
  | last ht =>
    rw [List.singleton_append, names]
    refine reads_identifier_cons ht ?_
    rw [reads_onNext_of_stops (stops_of_peek hrest)]
    exact reads_done_self _ rest
  | more ht₁ ht₂ _ ih =>
    rw [List.cons_append, List.cons_append, names]
    refine reads_identifier_cons ht₁ ?_
    rw [reads_onNext_of_some (is?_of_kind (kind_eq_mark.mpr ht₂))]
    exact ih.map _

theorem reads_groupOf {w : List Lexeme} {group : List TypedName} (h : GroupOf w group) (rest : List Lexeme) :
    (typedNames (w ++ rest)).Reads group rest := by
  obtain @⟨t₁, t₂, w, ns, type, hw, ht₁, ht₂⟩ := h
  rw [List.append_assoc, List.cons_append, List.cons_append, List.nil_append, typedNames]
  refine (reads_namesOf hw (by rw [peek_cons_mark ht₁]; decide)).andThen ?_
  refine reads_expect_cons (kind_eq_mark.mpr ht₁) ?_
  exact reads_accept.mpr ⟨t₂, rest, type, Nat.lt_succ_self _, rfl, typeName?_eq_some.mpr ht₂, reads_done_self _ rest⟩

theorem peek_groupOf {w : List Lexeme} {group : List TypedName} (h : GroupOf w group) (rest : List Lexeme) :
    peek (w ++ rest) = .identifier := by
  obtain ⟨hw, -, -⟩ := h
  cases hw with
  | last ht => exact peek_cons_identifier ht _
  | more ht _ _ => exact peek_cons_identifier ht _

theorem peek_variablesOf {w : List Lexeme} {declared : List TypedName} (h : VariablesOf w declared)
    (rest : List Lexeme) : peek (w ++ rest) = .identifier := by
  cases h with
  | last hw _ => rw [List.append_assoc]; exact peek_groupOf hw _
  | more hw _ _ => rw [List.append_assoc]; exact peek_groupOf hw _

theorem reads_variablesOf {w : List Lexeme} {declared : List TypedName} (h : VariablesOf w declared)
    {rest : List Lexeme} (hrest : peek rest ≠ .identifier) : (variableGroups (w ++ rest)).Reads declared rest := by
  induction h with
  | last hw ht =>
    rw [List.append_assoc, List.singleton_append, variableGroups]
    refine (reads_groupOf hw _).andThen (reads_expect_cons (kind_eq_mark.mpr ht) ?_)
    rw [if_neg hrest]
    exact reads_done_self _ rest
  | more hw ht hv ih =>
    rw [List.append_assoc, List.cons_append, variableGroups]
    refine (reads_groupOf hw _).andThen (reads_expect_cons (kind_eq_mark.mpr ht) ?_)
    rw [if_pos (peek_variablesOf hv rest)]
    exact ih.map _

/-- The next token begins a procedure or a body. -/
def EndsVariables (rest : List Lexeme) : Prop :=
  peek rest = .keyword .procedure ∨ peek rest = .keyword .beginBlock

theorem reads_variableSectionOf {w : List Lexeme} {declared : List TypedName} (h : VariableSectionOf w declared)
    {rest : List Lexeme} (hrest : EndsVariables rest) : (variableSection (w ++ rest)).Reads declared rest := by
  cases h with
  | none =>
    have hvar : peek rest ≠ .keyword .var := by rcases hrest with h | h <;> rw [h] <;> decide
    rw [List.nil_append, variableSection, reads_onNext_of_stops (stops_of_peek hvar)]
    exact reads_done_self _ rest
  | some ht hw =>
    have hname : peek rest ≠ .identifier := by rcases hrest with h | h <;> rw [h] <;> decide
    rw [List.cons_append, variableSection, reads_onNext_of_some (is?_of_kind (kind_eq_keyword.mpr ht))]
    exact reads_variablesOf hw hname

theorem reads_parameterGroupsOf {w : List Lexeme} {declared : List TypedName} (h : ParameterGroupsOf w declared)
    {rest : List Lexeme} (hrest : peek rest ≠ .mark .semicolon) :
    (parameterGroups (w ++ rest)).Reads declared rest := by
  induction h with
  | last hw =>
    rw [parameterGroups]
    refine (reads_groupOf hw rest).andThen ?_
    rw [reads_onNext_of_stops (stops_of_peek hrest)]
    exact reads_done_self _ rest
  | more hw ht _ ih =>
    rw [List.append_assoc, List.cons_append, parameterGroups]
    refine (reads_groupOf hw _).andThen ?_
    rw [reads_onNext_of_some (is?_of_kind (kind_eq_mark.mpr ht))]
    exact ih.map _

theorem reads_parametersOf {w : List Lexeme} {declared : List TypedName} (h : ParametersOf w declared)
    {rest : List Lexeme} (hrest : peek rest = .mark .semicolon) : (parameters (w ++ rest)).Reads declared rest := by
  cases h with
  | none =>
    rw [List.nil_append, parameters, reads_onNext_of_stops (stops_of_peek (by rw [hrest]; decide))]
    exact reads_done_self _ rest
  | some ht₁ hw ht₂ =>
    rw [List.append_assoc, List.cons_append, List.singleton_append, parameters,
      reads_onNext_of_some (is?_of_kind (kind_eq_mark.mpr ht₁))]
    refine (reads_parameterGroupsOf hw (by rw [peek_cons_mark ht₂]; decide)).andThen ?_
    exact reads_expect_cons (kind_eq_mark.mpr ht₂) (reads_done_self _ rest)

theorem peek_procedureOf {w : List Lexeme} {d : Declaration} (h : ProcedureOf w d) (rest : List Lexeme) :
    peek (w ++ rest) = .keyword .procedure := by
  obtain ⟨ht, -⟩ := h
  exact peek_cons_keyword ht _

theorem endsVariables_proceduresOf {w : List Lexeme} {ds : List Declaration} (h : ProceduresOf w ds)
    {rest : List Lexeme} (hrest : peek rest = .keyword .beginBlock) : EndsVariables (w ++ rest) := by
  cases h with
  | none => exact .inr hrest
  | more hw _ =>
    rw [List.append_assoc]
    exact .inl (peek_procedureOf hw _)

mutual

theorem reads_procedureOf : ∀ {w : List Lexeme} {d : Declaration}, ProcedureOf w d → ∀ rest,
    (procedure (w ++ rest)).Reads d rest
  | _, _, @ProcedureOf.mk t₁ t₂ t₃ t₄ name w v parameters block ht₁ ht₂ hw ht₃ hv ht₄, rest => by
    have hts : t₁ :: t₂ :: w ++ t₃ :: v ++ [t₄] ++ rest = t₁ :: t₂ :: (w ++ t₃ :: (v ++ t₄ :: rest)) := by simp
    rw [hts, procedure, Taking.toReply_expect]
    refine reads_expect_cons (kind_eq_keyword.mpr ht₁) ?_
    refine reads_identifier_cons ht₂ ?_
    refine (reads_parametersOf hw (peek_cons_mark ht₃ _)).andThen ?_
    refine reads_expect_cons (kind_eq_mark.mpr ht₃) ?_
    refine (reads_blockOf hv _).andThen ?_
    exact reads_expect_cons (kind_eq_mark.mpr ht₄) (reads_done_self _ rest)

theorem reads_proceduresOf : ∀ {w : List Lexeme} {ds : List Declaration}, ProceduresOf w ds →
    ∀ {rest : List Lexeme}, peek rest = .keyword .beginBlock → (procedures (w ++ rest)).Reads ds rest
  | _, _, .none, rest, hrest => by
    rw [List.nil_append, procedures_eq, if_neg (by rw [hrest]; decide)]
    exact reads_done_self _ rest
  | _, _, @ProceduresOf.more w v first others hw hv, rest, hrest => by
    rw [List.append_assoc, procedures_eq, if_pos (peek_procedureOf hw _)]
    exact (reads_procedureOf hw _).andThen ((reads_proceduresOf hv hrest).map _)

theorem reads_declarationsOf : ∀ {w : List Lexeme} {ds : List Declaration}, DeclarationsOf w ds →
    ∀ {rest : List Lexeme}, peek rest = .keyword .beginBlock → (declarations (w ++ rest)).Reads ds rest
  | _, _, @DeclarationsOf.mk w v declared ds hw hv, rest, hrest => by
    rw [List.append_assoc, declarations]
    refine (reads_variableSectionOf hw (endsVariables_proceduresOf hv hrest)).andThen ?_
    exact (reads_proceduresOf hv hrest).map _

theorem reads_blockOf : ∀ {w : List Lexeme} {b : Block}, BlockOf w b → ∀ rest, (block (w ++ rest)).Reads b rest
  | _, _, @BlockOf.mk w v ds body hw hv, rest => by
    rw [List.append_assoc, block]
    refine (reads_declarationsOf hw (peek_compoundOf hv rest)).andThen ?_
    exact (reads_compoundOf hv rest).map _

end

/-! ## Programs -/

theorem reads_programOf {w : List Lexeme} {p : Program} (h : ProgramOf w p) (rest : List Lexeme) :
    (program (w ++ rest)).Reads p rest := by
  obtain ⟨ht₁, ht₂, ht₃, hw, ht₄⟩ := h
  rw [List.append_assoc, List.cons_append, List.cons_append, List.cons_append, List.singleton_append, program]
  refine reads_expect_cons (kind_eq_keyword.mpr ht₁) (reads_identifier_cons ht₂ ?_)
  refine reads_expect_cons (kind_eq_mark.mpr ht₃) ((reads_blockOf hw _).andThen ?_)
  exact reads_expect_cons (kind_eq_mark.mpr ht₄) (reads_done_self _ rest)

end MiniPascal.Parser
