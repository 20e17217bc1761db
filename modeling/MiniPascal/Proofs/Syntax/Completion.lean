import MiniPascal.Proofs.Syntax.Soundness

/-!
# What can be completed

A rule that fails has taken the start of a word of its symbol (`Stuck`): for whatever is still missing there is a
shortest form, and the parts that were read before are words themselves.

* `Parser.stuck_program`, `Parser.stuck_expression`.
-/

namespace MiniPascal.Parser

open Grammar

variable {α β : Type}

/-! ## Prefixes of words -/

/-- What stands before `rest` can be completed to a word of the symbol. -/
def Stuck (Of : List Lexeme → α → Prop) (ts rest : List Lexeme) : Prop := ∃ u v a, ts = u ++ rest ∧ Of (u ++ v) a

section

variable {Of : List Lexeme → α → Prop} {Of' : List Lexeme → β → Prop} {ts rest : List Lexeme}

theorem stuck_of_word {u v : List Lexeme} {a : α} (h : Of (u ++ v) a) (rest : List Lexeme) :
    Stuck Of (u ++ rest) rest := ⟨u, v, a, rfl, h⟩

/-- A symbol that stands between other tokens of a word. -/
theorem Stuck.within (h : Stuck Of ts rest) (before behind : List Lexeme)
    (hword : ∀ {w a}, Of w a → ∃ b, Of' (before ++ w ++ behind) b) : Stuck Of' (before ++ ts) rest := by
  obtain ⟨u, v, a, rfl, hw⟩ := h
  obtain ⟨b, hb⟩ := hword hw
  exact ⟨before ++ u, v ++ behind, b, by simp, by simpa using hb⟩

theorem Stuck.imp (h : Stuck Of ts rest) (hword : ∀ {w a}, Of w a → ∃ b, Of' w b) : Stuck Of' ts rest :=
  h.within [] [] fun hw => by simpa using hword hw

end

/-! ## Shortest words -/

/-- A token that may be missing. -/
def missing (token : Token) : Lexeme := ⟨token, ⟨0, 1, 1⟩, 0⟩

def missingName : Lexeme := missing (.identifier "x")

theorem factorOf_missingName : ∃ e, FactorOf [missingName] e := ⟨_, .variable rfl⟩

theorem expressionOf_missingName : ∃ e, ExpressionOf [missingName] e := ⟨_, .term (.factor (.variable rfl))⟩

/-- The body without a statement. -/
def missingBody : List Lexeme := [missing (.keyword .beginBlock), missing (.keyword .endBlock)]

theorem compoundOf_missingBody : ∃ children, CompoundOf missingBody children := ⟨_, .mk rfl (.last .empty) rfl⟩

theorem blockOf_missingBody : ∃ b, BlockOf missingBody b := by
  obtain ⟨children, hbody⟩ := compoundOf_missingBody
  exact ⟨_, .mk (.mk .none .none) hbody⟩

/-- What a procedure may lack behind its parameters. -/
def missingProcedureBody : List Lexeme :=
  missing (.mark .semicolon) :: missingBody ++ [missing (.mark .semicolon)]

theorem procedureOf_heading {t₁ t₂ : Lexeme} {name : String} {w : List Lexeme} {parameters : List TypedName}
    (ht₁ : t₁.token = .keyword .procedure) (ht₂ : t₂.token = .identifier name) (hw : ParametersOf w parameters) :
    ∃ d, ProcedureOf (t₁ :: t₂ :: w ++ missingProcedureBody) d := by
  obtain ⟨b, hb⟩ := blockOf_missingBody
  exact ⟨_, by simpa [missingProcedureBody] using ProcedureOf.mk ht₁ ht₂ hw rfl hb rfl⟩

/-! ## Expressions -/

mutual

theorem stuck_factor {ts rest : List Lexeme} {expected : Expected} (h : (factor ts).Fails expected rest) :
    Stuck FactorOf ts rest := by
  rw [factor] at h
  simp only [fails_onNext, fails_map, not_fails_done, fails_andThen, fails_expect, fails_unexpected, sign?_eq_some,
    is?_eq_some, kind_eq_mark, exists_false, and_false, false_or] at h
  rcases h with ⟨t, tail, op, hlt, rfl, ht, hoperand⟩ | ⟨-, -, -, h⟩
  · exact (stuck_factor hoperand).within [t] [] fun hw => ⟨_, by simpa using .sign ht hw⟩
  rcases h with ⟨t, tail, _, hlt, rfl, ht, hinner | ⟨e, mid, hle, he, -, -, rfl⟩⟩ | ⟨-, -, rfl⟩
  · exact (stuck_expression hinner).within [t] [missing (.mark .rightParen)] fun hw => ⟨_, .parentheses ht hw rfl⟩
  · obtain ⟨w, rfl, hw⟩ := exists_expressionOf he
    exact stuck_of_word (u := t :: w) (v := [missing (.mark .rightParen)]) (.parentheses ht hw rfl) rest
  · obtain ⟨e, he⟩ := factorOf_missingName
    exact stuck_of_word (u := []) he rest
termination_by 4 * ts.length
decreasing_by all_goals omega

theorem stuck_multiplicative {ts rest : List Lexeme} {expected : Expected}
    (h : (multiplicative ts).Fails expected rest) : Stuck TermOf ts rest := by
  rw [multiplicative, fails_andThen] at h
  rcases h with hfirst | ⟨left, mid, hle, hleft, hrest⟩
  · exact (stuck_factor hfirst).imp fun hw => ⟨_, .factor hw⟩
  · obtain ⟨w, hts, hw⟩ := exists_factorOf hleft
    rw [hts]
    exact stuck_multiplicativeRest (.factor hw) hrest
termination_by 4 * ts.length + 1
decreasing_by all_goals omega

/-- The rest of a chain extends the word before it. -/
theorem stuck_multiplicativeRest {ts rest w : List Lexeme} {left : Expr} {expected : Expected} (hw : TermOf w left)
    (h : (multiplicativeRest left ts).Fails expected rest) : Stuck TermOf (w ++ ts) rest := by
  rw [multiplicativeRest] at h
  simp only [fails_onNext, fails_andThen, not_fails_done, multiplicative?_eq_some, and_false, or_false] at h
  obtain ⟨t, tail, op, hlt, rfl, ⟨ht, hop⟩, hright | ⟨right, mid, hle, hright, hrest⟩⟩ := h
  · rw [List.append_cons]
    exact (stuck_factor hright).within (w ++ [t]) [] fun hv => ⟨_, by simpa using .chain hw ht hop hv⟩
  · obtain ⟨v, rfl, hv⟩ := exists_factorOf hright
    have hstuck := stuck_multiplicativeRest (.chain hw ht hop hv) hrest
    rwa [List.append_assoc, List.cons_append] at hstuck
termination_by 4 * ts.length
decreasing_by all_goals omega

theorem stuck_additive {ts rest : List Lexeme} {expected : Expected} (h : (additive ts).Fails expected rest) :
    Stuck ExpressionOf ts rest := by
  rw [additive, fails_andThen] at h
  rcases h with hfirst | ⟨left, mid, hle, hleft, hrest⟩
  · exact (stuck_multiplicative hfirst).imp fun hw => ⟨_, .term hw⟩
  · obtain ⟨w, hts, hw⟩ := exists_termOf hleft
    rw [hts]
    exact stuck_additiveRest (.term hw) hrest
termination_by 4 * ts.length + 2
decreasing_by all_goals omega

theorem stuck_additiveRest {ts rest w : List Lexeme} {left : Expr} {expected : Expected} (hw : ExpressionOf w left)
    (h : (additiveRest left ts).Fails expected rest) : Stuck ExpressionOf (w ++ ts) rest := by
  rw [additiveRest] at h
  simp only [fails_onNext, fails_andThen, not_fails_done, additive?_eq_some, and_false, or_false] at h
  obtain ⟨t, tail, op, hlt, rfl, ⟨ht, hop⟩, hright | ⟨right, mid, hle, hright, hrest⟩⟩ := h
  · rw [List.append_cons]
    exact (stuck_multiplicative hright).within (w ++ [t]) [] fun hv => ⟨_, by simpa using .chain hw ht hop hv⟩
  · obtain ⟨v, rfl, hv⟩ := exists_termOf hright
    have hstuck := stuck_additiveRest (.chain hw ht hop hv) hrest
    rwa [List.append_assoc, List.cons_append] at hstuck
termination_by 4 * ts.length
decreasing_by all_goals omega

theorem stuck_expression {ts rest : List Lexeme} {expected : Expected} (h : (expression ts).Fails expected rest) :
    Stuck ExpressionOf ts rest := by
  rw [expression] at h
  exact stuck_additive h
termination_by 4 * ts.length + 3

end

/-! ## Statements -/

theorem stuck_assignment {ts rest : List Lexeme} {expected : Expected} (h : (assignment ts).Fails expected rest) :
    Stuck StatementOf ts rest := by
  simp only [assignment, fails_identifier, fails_expect, fails_map, kind_eq_mark] at h
  rcases h with ⟨t, tail, name, hlt, rfl, ht, h⟩ | ⟨-, -, rfl⟩
  · rcases h with ⟨t', tail', hlt', rfl, ht', hvalue⟩ | ⟨-, -, rfl⟩
    · exact (stuck_expression hvalue).within [t, t'] [] fun hw => ⟨_, by simpa using .assignment ht ht' hw⟩
    · obtain ⟨e, he⟩ := expressionOf_missingName
      exact stuck_of_word (u := [t]) (v := [missing (.mark .assign), missingName]) (.assignment ht rfl he) rest
  · exact stuck_of_word (u := []) (v := []) .empty rest

mutual

theorem stuck_compound {ts rest : List Lexeme} {expected : Expected} (h : (compound ts).Fails expected rest) :
    Stuck CompoundOf ts rest := by
  rw [compound] at h
  simp only [fails_expect, fails_andThen, not_fails_done, kind_eq_keyword, exists_false, and_false, false_or] at h
  rcases h with ⟨t, tail, hlt, rfl, ht, hinner | ⟨children, mid, hle, hchildren, -, -, rfl⟩⟩ | ⟨-, -, rfl⟩
  · exact (stuck_statements hinner).within [t] [missing (.keyword .endBlock)] fun hw => ⟨_, .mk ht hw rfl⟩
  · obtain ⟨w, rfl, hw⟩ := exists_statementsOf hchildren
    exact stuck_of_word (u := t :: w) (v := [missing (.keyword .endBlock)]) (.mk ht hw rfl) rest
  · obtain ⟨children, hbody⟩ := compoundOf_missingBody
    exact stuck_of_word (u := []) hbody rest
termination_by 3 * ts.length
decreasing_by all_goals omega

theorem stuck_statement {ts rest : List Lexeme} {expected : Expected} (h : (statement ts).Fails expected rest) :
    Stuck StatementOf ts rest := by
  rw [statement] at h
  split at h
  · exact (stuck_compound (fails_map.mp h)).imp fun hw => ⟨_, .compound hw⟩
  · exact stuck_assignment h
  · exact absurd h not_fails_done
termination_by 3 * ts.length + 1
decreasing_by all_goals omega

theorem stuck_statements {ts rest : List Lexeme} {expected : Expected} (h : (statements ts).Fails expected rest) :
    Stuck StatementsOf ts rest := by
  rw [statements] at h
  simp only [fails_andThen, fails_onNext, fails_map, not_fails_done, is?_eq_some, kind_eq_mark, and_false,
    or_false] at h
  rcases h with hfirst | ⟨first, mid, hle, hfirst, t, tail, _, hlt, rfl, ht, hothers⟩
  · exact (stuck_statement hfirst).imp fun hw => ⟨_, .last hw⟩
  · obtain ⟨w, rfl, hw⟩ := exists_statementOf hfirst
    rw [List.append_cons]
    exact (stuck_statements hothers).within (w ++ [t]) [] fun hv => ⟨_, by simpa using .more hw ht hv⟩
termination_by 3 * ts.length + 2
decreasing_by all_goals omega

end

/-! ## Declarations -/

theorem stuck_names {ts rest : List Lexeme} {expected : Expected} (h : (names ts).Fails expected rest) :
    Stuck NamesOf ts rest := by
  rw [names] at h
  simp only [fails_identifier, fails_onNext, fails_map, not_fails_done, is?_eq_some, kind_eq_mark, and_false,
    or_false] at h
  rcases h with ⟨t, tail, name, hlt, rfl, ht, t', tail', _, hlt', rfl, ht', hothers⟩ | ⟨-, -, rfl⟩
  · exact (stuck_names hothers).within [t, t'] [] fun hw => ⟨_, by simpa using .more ht ht' hw⟩
  · exact stuck_of_word (u := []) (v := [missingName]) (.last rfl) rest
termination_by ts.length
decreasing_by omega

theorem stuck_typedNames {ts rest : List Lexeme} {expected : Expected} (h : (typedNames ts).Fails expected rest) :
    Stuck GroupOf ts rest := by
  have htype : (missing (.keyword .integer)).token = TypeName.integer.token := rfl
  simp only [typedNames, fails_andThen, fails_expect, fails_accept, not_fails_done, kind_eq_mark, exists_false,
    and_false, false_or] at h
  rcases h with hnames | ⟨ns, mid, hle, hns, ⟨t, tail, hlt, rfl, ht, -, -, rfl⟩ | ⟨-, -, rfl⟩⟩
  · exact (stuck_names hnames).within [] [missing (.mark .colon), missing (.keyword .integer)] fun hw =>
      ⟨_, .mk hw rfl htype⟩
  · obtain ⟨w, rfl, hw⟩ := exists_namesOf hns
    rw [List.append_cons]
    exact stuck_of_word (v := [missing (.keyword .integer)]) (by simpa using .mk hw ht htype) rest
  · obtain ⟨w, rfl, hw⟩ := exists_namesOf hns
    exact stuck_of_word (v := [missing (.mark .colon), missing (.keyword .integer)]) (.mk hw rfl htype) rest

theorem stuck_variableGroups {ts rest : List Lexeme} {expected : Expected}
    (h : (variableGroups ts).Fails expected rest) : Stuck VariablesOf ts rest := by
  rw [variableGroups] at h
  simp only [fails_andThen, fails_expect, kind_eq_mark] at h
  rcases h with hgroup | ⟨group, mid, hle, hgroup, ⟨t, tail, hlt, rfl, ht, hothers⟩ | ⟨-, -, rfl⟩⟩
  · exact (stuck_typedNames hgroup).within [] [missing (.mark .semicolon)] fun hw => ⟨_, .last hw rfl⟩
  · obtain ⟨w, rfl, hw⟩ := exists_groupOf hgroup
    split at hothers
    · rw [List.append_cons]
      exact (stuck_variableGroups (fails_map.mp hothers)).within (w ++ [t]) [] fun hv =>
        ⟨_, by simpa using .more hw ht hv⟩
    · exact absurd hothers not_fails_done
  · obtain ⟨w, rfl, hw⟩ := exists_groupOf hgroup
    exact stuck_of_word (v := [missing (.mark .semicolon)]) (.last hw rfl) rest
termination_by ts.length
decreasing_by omega

theorem stuck_variableSection {ts rest : List Lexeme} {expected : Expected}
    (h : (variableSection ts).Fails expected rest) : Stuck VariableSectionOf ts rest := by
  simp only [variableSection, fails_onNext, not_fails_done, is?_eq_some, kind_eq_keyword, and_false, or_false] at h
  obtain ⟨t, tail, _, hlt, rfl, ht, hgroups⟩ := h
  exact (stuck_variableGroups hgroups).within [t] [] fun hw => ⟨_, by simpa using .some ht hw⟩

theorem stuck_parameterGroups {ts rest : List Lexeme} {expected : Expected}
    (h : (parameterGroups ts).Fails expected rest) : Stuck ParameterGroupsOf ts rest := by
  rw [parameterGroups] at h
  simp only [fails_andThen, fails_onNext, fails_map, not_fails_done, is?_eq_some, kind_eq_mark, and_false,
    or_false] at h
  rcases h with hgroup | ⟨group, mid, hle, hgroup, t, tail, _, hlt, rfl, ht, hothers⟩
  · exact (stuck_typedNames hgroup).imp fun hw => ⟨_, .last hw⟩
  · obtain ⟨w, rfl, hw⟩ := exists_groupOf hgroup
    rw [List.append_cons]
    exact (stuck_parameterGroups hothers).within (w ++ [t]) [] fun hv => ⟨_, by simpa using .more hw ht hv⟩
termination_by ts.length
decreasing_by omega

theorem stuck_parameters {ts rest : List Lexeme} {expected : Expected} (h : (parameters ts).Fails expected rest) :
    Stuck ParametersOf ts rest := by
  simp only [parameters, fails_onNext, fails_andThen, fails_expect, not_fails_done, is?_eq_some, kind_eq_mark,
    exists_false, and_false, false_or, or_false] at h
  obtain ⟨t, tail, _, hlt, rfl, ht, hgroups | ⟨group, mid, hle, hgroup, -, -, rfl⟩⟩ := h
  · exact (stuck_parameterGroups hgroups).within [t] [missing (.mark .rightParen)] fun hw => ⟨_, .some ht hw rfl⟩
  · obtain ⟨w, rfl, hw⟩ := exists_parameterGroupsOf hgroup
    exact stuck_of_word (u := t :: w) (v := [missing (.mark .rightParen)]) (.some ht hw rfl) rest

mutual

theorem stuck_procedures {ts rest : List Lexeme} {expected : Expected} (h : (procedures ts).Fails expected rest) :
    Stuck ProceduresOf ts rest := by
  rw [procedures_eq] at h
  split at h
  · simp only [fails_andThen, fails_map] at h
    rcases h with hfirst | ⟨first, mid, hle, hfirst, hothers⟩
    · exact (stuck_procedure hfirst).imp fun hw => ⟨_, by simpa using ProceduresOf.more hw .none⟩
    · have hlt := Taking.length_lt_of_reads hfirst
      obtain ⟨w, hts, hw⟩ := exists_procedureOf hfirst
      rw [hts]
      exact (stuck_procedures hothers).within w [] fun hv => ⟨_, by simpa using .more hw hv⟩
  · exact absurd h not_fails_done
termination_by 4 * ts.length + 1
decreasing_by all_goals omega

theorem stuck_procedure {ts rest : List Lexeme} {expected : Expected} (h : (procedure ts).Fails expected rest) :
    Stuck ProcedureOf ts rest := by
  rw [procedure, Taking.toReply_expect] at h
  simp only [fails_identifier, fails_andThen, fails_expect, not_fails_done, kind_eq_keyword, kind_eq_mark, exists_false,
    and_false, false_or] at h
  have hword : (missing (.keyword .procedure)).token = .keyword .procedure := rfl
  have hname : missingName.token = .identifier "x" := rfl
  rcases h with ⟨t, tail₁, hlt₁, rfl, ht, h⟩ | ⟨-, -, rfl⟩
  · rcases h with ⟨t₂, tail, name, hlt, rfl, ht₂, h⟩ | ⟨-, -, rfl⟩
    · -- in the parameters, behind the semicolon, or at the semicolon
      rcases h with hgroups | ⟨group, mid, hle, hgroup, ⟨t₃, tail₃, hlt₃, rfl, ht₃, h⟩ | ⟨-, -, rfl⟩⟩
      · exact (stuck_parameters hgroups).within [t, t₂] missingProcedureBody fun hw => procedureOf_heading ht ht₂ hw
      · obtain ⟨w, rfl, hw⟩ := exists_parametersOf hgroup
        rcases h with hbody | ⟨body, mid₄, hle₄, hbody, -, -, rfl⟩
        · have hstuck := (stuck_block hbody).within (t :: t₂ :: w ++ [t₃]) [missing (.mark .semicolon)] fun hv =>
            ⟨_, by simpa using ProcedureOf.mk ht ht₂ hw ht₃ hv rfl⟩
          simpa using hstuck
        · obtain ⟨v, rfl, hv⟩ := exists_blockOf hbody
          have hmark : (missing (.mark .semicolon)).token = .mark .semicolon := rfl
          simpa using stuck_of_word (ProcedureOf.mk ht ht₂ hw ht₃ hv hmark) rest
      · obtain ⟨w, rfl, hw⟩ := exists_parametersOf hgroup
        obtain ⟨d, hd⟩ := procedureOf_heading ht ht₂ hw
        exact stuck_of_word hd rest
    · obtain ⟨d, hd⟩ := procedureOf_heading ht hname .none
      exact stuck_of_word (u := [t]) hd rest
  · obtain ⟨d, hd⟩ := procedureOf_heading hword hname .none
    exact stuck_of_word (u := []) hd rest
termination_by 4 * ts.length
decreasing_by all_goals omega

theorem stuck_declarations {ts rest : List Lexeme} {expected : Expected}
    (h : (declarations ts).Fails expected rest) : Stuck DeclarationsOf ts rest := by
  rw [declarations] at h
  simp only [fails_andThen, fails_map] at h
  rcases h with hvars | ⟨vars, mid, hle, hvars, hprocs⟩
  · exact (stuck_variableSection hvars).imp fun hw => ⟨_, by simpa using DeclarationsOf.mk hw .none⟩
  · obtain ⟨w, rfl, hw⟩ := exists_variableSectionOf hvars
    exact (stuck_procedures hprocs).within w [] fun hv => ⟨_, by simpa using .mk hw hv⟩
termination_by 4 * ts.length + 2
decreasing_by all_goals omega

theorem stuck_block {ts rest : List Lexeme} {expected : Expected} (h : (block ts).Fails expected rest) :
    Stuck BlockOf ts rest := by
  rw [block] at h
  simp only [fails_andThen, fails_map] at h
  rcases h with hdecls | ⟨decls, mid, hle, hdecls, hbody⟩
  · obtain ⟨children, hchildren⟩ := compoundOf_missingBody
    exact (stuck_declarations hdecls).within [] missingBody fun hw => ⟨_, .mk hw hchildren⟩
  · obtain ⟨w, rfl, hw⟩ := exists_declarationsOf hdecls
    exact (stuck_compound hbody).within w [] fun hv => ⟨_, by simpa using .mk hw hv⟩
termination_by 4 * ts.length + 3
decreasing_by all_goals omega

end

/-! ## Programs -/

theorem stuck_program {ts rest : List Lexeme} {expected : Expected} (h : (program ts).Fails expected rest) :
    Stuck ProgramOf ts rest := by
  obtain ⟨b, hb⟩ := blockOf_missingBody
  simp only [program, fails_expect, fails_identifier, fails_andThen, not_fails_done, kind_eq_keyword, kind_eq_mark,
    exists_false, and_false, false_or] at h
  rcases h with ⟨t₁, tail₁, hlt₁, rfl, ht₁, h⟩ | ⟨-, -, rfl⟩
  · rcases h with ⟨t₂, tail₂, name, hlt₂, rfl, ht₂, h⟩ | ⟨-, -, rfl⟩
    · rcases h with ⟨t₃, tail₃, hlt₃, rfl, ht₃, hbody | ⟨body, mid, hle, hbody, -, -, rfl⟩⟩ | ⟨-, -, rfl⟩
      · exact (stuck_block hbody).within [t₁, t₂, t₃] [missing (.mark .dot)] fun hw => ⟨_, .mk ht₁ ht₂ ht₃ hw rfl⟩
      · obtain ⟨w, rfl, hw⟩ := exists_blockOf hbody
        exact stuck_of_word (u := t₁ :: t₂ :: t₃ :: w) (v := [missing (.mark .dot)]) (.mk ht₁ ht₂ ht₃ hw rfl) rest
      · exact stuck_of_word (u := [t₁, t₂]) (v := missing (.mark .semicolon) :: missingBody ++ [missing (.mark .dot)])
          (.mk ht₁ ht₂ rfl hb rfl) rest
    · exact stuck_of_word (u := [t₁])
        (v := missingName :: missing (.mark .semicolon) :: missingBody ++ [missing (.mark .dot)])
        (.mk ht₁ rfl rfl hb rfl) rest
  · exact stuck_of_word (u := [])
      (v := missing (.keyword .program) :: missingName :: missing (.mark .semicolon) :: missingBody ++
        [missing (.mark .dot)])
      (.mk rfl rfl rfl hb rfl) rest

end MiniPascal.Parser
