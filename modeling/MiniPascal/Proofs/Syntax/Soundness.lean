import MiniPascal.Proofs.Syntax.Reading

/-!
# The parser reads words of the grammar

What a rule takes off the front of a list is a word of its symbol, and the tree is that of the derivation. The rules for
the rest of a chain are handed what was read before them, so their statements extend a word that is already there.

* `Parser.exists_programOf`: the whole of a program.
* `Parser.exists_expressionOf`: the whole of an expression.
-/

namespace MiniPascal.Parser

open Grammar

/-! ## Expressions -/

mutual

theorem exists_factorOf {ts rest : List Lexeme} {e : Expr} (h : (factor ts).Reads e rest) :
    ∃ w, ts = w ++ rest ∧ FactorOf w e := by
  rw [factor] at h
  simp only [reads_onNext, reads_map, reads_done, reads_andThen, reads_expect, sign?_eq_some, value?_eq_some,
    name?_eq_some, is?_eq_some, kind_eq_mark] at h
  rcases h with ⟨t, tail, op, hlt, rfl, ht, operand, hoperand, rfl⟩ | ⟨-, h⟩
  · obtain ⟨w, rfl, hw⟩ := exists_factorOf hoperand
    exact ⟨t :: w, rfl, .sign ht hw⟩
  rcases h with ⟨t, tail, value, hlt, rfl, ht, rfl, rfl⟩ | ⟨-, h⟩
  · exact ⟨[t], rfl, .constant ht⟩
  rcases h with ⟨t, tail, name, hlt, rfl, ht, rfl, rfl⟩ | ⟨-, h⟩
  · exact ⟨[t], rfl, .variable ht⟩
  rcases h with ⟨t, tail, _, hlt, rfl, ht, e, mid, hle, he, t', rest', hlt', rfl, ht', rfl, rfl⟩ | ⟨-, h⟩
  · obtain ⟨w, rfl, hw⟩ := exists_expressionOf he
    exact ⟨t :: w ++ [t'], by simp, .parentheses ht hw ht'⟩
  · exact absurd h not_reads_unexpected
termination_by 4 * ts.length
decreasing_by all_goals omega

theorem exists_termOf {ts rest : List Lexeme} {e : Expr} (h : (multiplicative ts).Reads e rest) :
    ∃ w, ts = w ++ rest ∧ TermOf w e := by
  rw [multiplicative, reads_andThen] at h
  obtain ⟨left, mid, hle, hleft, h⟩ := h
  obtain ⟨w, hw, hfactor⟩ := exists_factorOf hleft
  obtain ⟨v, hv, hterm⟩ := exists_termOf_append (.factor hfactor) h
  exact ⟨w ++ v, by rw [hw, hv, List.append_assoc], hterm⟩
termination_by 4 * ts.length + 1
decreasing_by all_goals omega

theorem exists_termOf_append {ts rest w : List Lexeme} {left e : Expr} (hw : TermOf w left)
    (h : (multiplicativeRest left ts).Reads e rest) : ∃ v, ts = v ++ rest ∧ TermOf (w ++ v) e := by
  rw [multiplicativeRest] at h
  simp only [reads_onNext, reads_andThen, reads_done, multiplicative?_eq_some] at h
  rcases h with ⟨t, tail, op, hlt, rfl, ⟨ht, hop⟩, right, mid, hle, hright, h⟩ | ⟨-, rfl, rfl⟩
  · obtain ⟨u, hu, hfactor⟩ := exists_factorOf hright
    obtain ⟨v, hv, hterm⟩ := exists_termOf_append (.chain hw ht hop hfactor) h
    exact ⟨t :: u ++ v, by rw [hu, hv]; simp, by simpa using hterm⟩
  · exact ⟨[], rfl, by simpa using hw⟩
termination_by 4 * ts.length
decreasing_by all_goals omega

theorem exists_expressionOf_of_additive {ts rest : List Lexeme} {e : Expr} (h : (additive ts).Reads e rest) :
    ∃ w, ts = w ++ rest ∧ ExpressionOf w e := by
  rw [additive, reads_andThen] at h
  obtain ⟨left, mid, hle, hleft, h⟩ := h
  obtain ⟨w, hw, hterm⟩ := exists_termOf hleft
  obtain ⟨v, hv, hexpr⟩ := exists_expressionOf_append (.term hterm) h
  exact ⟨w ++ v, by rw [hw, hv, List.append_assoc], hexpr⟩
termination_by 4 * ts.length + 2
decreasing_by all_goals omega

theorem exists_expressionOf_append {ts rest w : List Lexeme} {left e : Expr} (hw : ExpressionOf w left)
    (h : (additiveRest left ts).Reads e rest) : ∃ v, ts = v ++ rest ∧ ExpressionOf (w ++ v) e := by
  rw [additiveRest] at h
  simp only [reads_onNext, reads_andThen, reads_done, additive?_eq_some] at h
  rcases h with ⟨t, tail, op, hlt, rfl, ⟨ht, hop⟩, right, mid, hle, hright, h⟩ | ⟨-, rfl, rfl⟩
  · obtain ⟨u, hu, hterm⟩ := exists_termOf hright
    obtain ⟨v, hv, hexpr⟩ := exists_expressionOf_append (.chain hw ht hop hterm) h
    exact ⟨t :: u ++ v, by rw [hu, hv]; simp, by simpa using hexpr⟩
  · exact ⟨[], rfl, by simpa using hw⟩
termination_by 4 * ts.length
decreasing_by all_goals omega

theorem exists_expressionOf {ts rest : List Lexeme} {e : Expr} (h : (expression ts).Reads e rest) :
    ∃ w, ts = w ++ rest ∧ ExpressionOf w e := by
  rw [expression] at h
  exact exists_expressionOf_of_additive h
termination_by 4 * ts.length + 3

end

/-! ## Statements -/

mutual

theorem exists_compoundOf {ts rest : List Lexeme} {children : List Statement}
    (h : (compound ts).Reads children rest) : ∃ w, ts = w ++ rest ∧ CompoundOf w children := by
  rw [compound] at h
  simp only [reads_expect, reads_andThen, reads_done, kind_eq_keyword] at h
  obtain ⟨t, tail, hlt, rfl, ht, children, mid, hle, h, t', rest', hlt', rfl, ht', rfl, rfl⟩ := h
  obtain ⟨w, rfl, hw⟩ := exists_statementsOf h
  exact ⟨t :: w ++ [t'], by simp, .mk ht hw ht'⟩
termination_by 3 * ts.length
decreasing_by all_goals omega

theorem exists_statementOf {ts rest : List Lexeme} {s : Statement} (h : (statement ts).Reads s rest) :
    ∃ w, ts = w ++ rest ∧ StatementOf w s := by
  rw [statement] at h
  split at h
  · obtain ⟨children, hchildren, rfl⟩ := reads_map.mp h
    obtain ⟨w, hw, hcompound⟩ := exists_compoundOf hchildren
    exact ⟨w, hw, .compound hcompound⟩
  · simp only [assignment, reads_identifier, reads_expect, reads_map, kind_eq_mark] at h
    obtain ⟨t, tail, name, hlt, rfl, ht, t', tail', hlt', rfl, ht', value, h, rfl⟩ := h
    obtain ⟨w, rfl, hw⟩ := exists_expressionOf h
    exact ⟨t :: t' :: w, rfl, .assignment ht ht' hw⟩
  · obtain ⟨rfl, rfl⟩ := reads_done.mp h
    exact ⟨[], rfl, .empty⟩
termination_by 3 * ts.length + 1
decreasing_by all_goals omega

theorem exists_statementsOf {ts rest : List Lexeme} {ss : List Statement} (h : (statements ts).Reads ss rest) :
    ∃ w, ts = w ++ rest ∧ StatementsOf w ss := by
  rw [statements] at h
  simp only [reads_andThen, reads_onNext, reads_map, reads_done, is?_eq_some, kind_eq_mark] at h
  obtain ⟨first, mid, hle, hfirst, h⟩ := h
  obtain ⟨w, rfl, hw⟩ := exists_statementOf hfirst
  rcases h with ⟨t, tail, _, hlt, rfl, ht, others, h, rfl⟩ | ⟨-, rfl, rfl⟩
  · obtain ⟨v, rfl, hv⟩ := exists_statementsOf h
    exact ⟨w ++ t :: v, by simp, .more hw ht hv⟩
  · exact ⟨w, rfl, .last hw⟩
termination_by 3 * ts.length + 2
decreasing_by all_goals omega

end

/-! ## Declarations -/

theorem exists_namesOf {ts rest : List Lexeme} {ns : List (String × Nat)} (h : (names ts).Reads ns rest) :
    ∃ w, ts = w ++ rest ∧ NamesOf w ns := by
  rw [names] at h
  simp only [reads_identifier, reads_onNext, reads_map, reads_done, is?_eq_some, kind_eq_mark] at h
  obtain ⟨t, tail, name, hlt, rfl, ht, h⟩ := h
  rcases h with ⟨t', tail', _, hlt', rfl, ht', others, h, rfl⟩ | ⟨-, rfl, rfl⟩
  · obtain ⟨w, rfl, hw⟩ := exists_namesOf h
    exact ⟨t :: t' :: w, rfl, .more ht ht' hw⟩
  · exact ⟨[t], rfl, .last ht⟩
termination_by ts.length
decreasing_by omega

theorem exists_groupOf {ts rest : List Lexeme} {group : List TypedName} (h : (typedNames ts).Reads group rest) :
    ∃ w, ts = w ++ rest ∧ GroupOf w group := by
  simp only [typedNames, reads_andThen, reads_expect, reads_accept, reads_done, kind_eq_mark, typeName?_eq_some] at h
  obtain ⟨ns, mid, hle, hns, t, tail, hlt, rfl, ht, t', tail', type, hlt', rfl, ht', rfl, rfl⟩ := h
  obtain ⟨w, rfl, hw⟩ := exists_namesOf hns
  exact ⟨w ++ [t, t'], by simp, .mk hw ht ht'⟩

theorem exists_variablesOf {ts rest : List Lexeme} {declared : List TypedName}
    (h : (variableGroups ts).Reads declared rest) : ∃ w, ts = w ++ rest ∧ VariablesOf w declared := by
  rw [variableGroups] at h
  simp only [reads_andThen, reads_expect, kind_eq_mark] at h
  obtain ⟨group, mid, hle, hgroup, t, tail, hlt, rfl, ht, h⟩ := h
  obtain ⟨w, rfl, hw⟩ := exists_groupOf hgroup
  split at h
  · obtain ⟨others, hothers, rfl⟩ := reads_map.mp h
    obtain ⟨v, rfl, hv⟩ := exists_variablesOf hothers
    exact ⟨w ++ t :: v, by simp, .more hw ht hv⟩
  · obtain ⟨rfl, rfl⟩ := reads_done.mp h
    exact ⟨w ++ [t], by simp, .last hw ht⟩
termination_by ts.length
decreasing_by omega

theorem exists_variableSectionOf {ts rest : List Lexeme} {declared : List TypedName}
    (h : (variableSection ts).Reads declared rest) : ∃ w, ts = w ++ rest ∧ VariableSectionOf w declared := by
  simp only [variableSection, reads_onNext, reads_done, is?_eq_some, kind_eq_keyword] at h
  rcases h with ⟨t, tail, _, hlt, rfl, ht, h⟩ | ⟨-, rfl, rfl⟩
  · obtain ⟨w, rfl, hw⟩ := exists_variablesOf h
    exact ⟨t :: w, rfl, .some ht hw⟩
  · exact ⟨[], rfl, .none⟩

theorem exists_parameterGroupsOf {ts rest : List Lexeme} {declared : List TypedName}
    (h : (parameterGroups ts).Reads declared rest) : ∃ w, ts = w ++ rest ∧ ParameterGroupsOf w declared := by
  rw [parameterGroups] at h
  simp only [reads_andThen, reads_onNext, reads_map, reads_done, is?_eq_some, kind_eq_mark] at h
  obtain ⟨group, mid, hle, hgroup, h⟩ := h
  obtain ⟨w, rfl, hw⟩ := exists_groupOf hgroup
  rcases h with ⟨t, tail, _, hlt, rfl, ht, others, h, rfl⟩ | ⟨-, rfl, rfl⟩
  · obtain ⟨v, rfl, hv⟩ := exists_parameterGroupsOf h
    exact ⟨w ++ t :: v, by simp, .more hw ht hv⟩
  · exact ⟨w, rfl, .last hw⟩
termination_by ts.length
decreasing_by omega

theorem exists_parametersOf {ts rest : List Lexeme} {declared : List TypedName}
    (h : (parameters ts).Reads declared rest) : ∃ w, ts = w ++ rest ∧ ParametersOf w declared := by
  simp only [parameters, reads_onNext, reads_andThen, reads_expect, reads_done, is?_eq_some, kind_eq_mark] at h
  rcases h with ⟨t, tail, _, hlt, rfl, ht, declared, mid, hle, h, t', tail', hlt', rfl, ht', rfl, rfl⟩ | ⟨-, rfl, rfl⟩
  · obtain ⟨w, rfl, hw⟩ := exists_parameterGroupsOf h
    exact ⟨t :: w ++ [t'], by simp, .some ht hw ht'⟩
  · exact ⟨[], rfl, .none⟩

mutual

theorem exists_proceduresOf {ts rest : List Lexeme} {ds : List Declaration} (h : (procedures ts).Reads ds rest) :
    ∃ w, ts = w ++ rest ∧ ProceduresOf w ds := by
  rw [procedures_eq] at h
  split at h
  · simp only [reads_andThen, reads_map] at h
    obtain ⟨first, mid, hle, hfirst, others, h, rfl⟩ := h
    have hlt := Taking.length_lt_of_reads hfirst
    obtain ⟨w, hw, hprocedure⟩ := exists_procedureOf hfirst
    obtain ⟨v, hv, hprocedures⟩ := exists_proceduresOf h
    exact ⟨w ++ v, by rw [hw, hv, List.append_assoc], .more hprocedure hprocedures⟩
  · obtain ⟨rfl, rfl⟩ := reads_done.mp h
    exact ⟨[], rfl, .none⟩
termination_by 4 * ts.length + 1
decreasing_by all_goals omega

theorem exists_procedureOf {ts rest : List Lexeme} {d : Declaration} (h : (procedure ts).Reads d rest) :
    ∃ w, ts = w ++ rest ∧ ProcedureOf w d := by
  rw [procedure, Taking.toReply_expect] at h
  simp only [reads_identifier, reads_andThen, reads_expect, reads_done, kind_eq_keyword, kind_eq_mark] at h
  obtain ⟨t₁, tail₁, hlt₁, rfl, ht₁, t₂, tail, name, hlt, rfl, ht₂, group, mid, hle, hgroup, t₃, tail₃, hlt₃, rfl, ht₃,
    body, mid₄, hle₄, hbody, t₄, tail₄, hlt₄, rfl, ht₄, rfl, rfl⟩ := h
  obtain ⟨w, rfl, hw⟩ := exists_parametersOf hgroup
  obtain ⟨v, rfl, hv⟩ := exists_blockOf hbody
  exact ⟨t₁ :: t₂ :: w ++ t₃ :: v ++ [t₄], by simp, .mk ht₁ ht₂ hw ht₃ hv ht₄⟩
termination_by 4 * ts.length
decreasing_by all_goals omega

theorem exists_declarationsOf {ts rest : List Lexeme} {ds : List Declaration}
    (h : (declarations ts).Reads ds rest) : ∃ w, ts = w ++ rest ∧ DeclarationsOf w ds := by
  rw [declarations] at h
  simp only [reads_andThen, reads_map] at h
  obtain ⟨vars, mid, hle, hvars, procs, hprocs, rfl⟩ := h
  obtain ⟨w, rfl, hw⟩ := exists_variableSectionOf hvars
  obtain ⟨v, rfl, hv⟩ := exists_proceduresOf hprocs
  exact ⟨w ++ v, by simp, .mk hw hv⟩
termination_by 4 * ts.length + 2
decreasing_by all_goals omega

theorem exists_blockOf {ts rest : List Lexeme} {b : Block} (h : (block ts).Reads b rest) :
    ∃ w, ts = w ++ rest ∧ BlockOf w b := by
  rw [block] at h
  simp only [reads_andThen, reads_map] at h
  obtain ⟨decls, mid, hle, hdecls, body, hbody, rfl⟩ := h
  obtain ⟨w, rfl, hw⟩ := exists_declarationsOf hdecls
  obtain ⟨v, rfl, hv⟩ := exists_compoundOf hbody
  exact ⟨w ++ v, by simp, .mk hw hv⟩
termination_by 4 * ts.length + 3
decreasing_by all_goals omega

end

/-! ## Programs -/

theorem exists_programOf {ts rest : List Lexeme} {p : Program} (h : (program ts).Reads p rest) :
    ∃ w, ts = w ++ rest ∧ ProgramOf w p := by
  simp only [program, reads_expect, reads_identifier, reads_andThen, reads_done, kind_eq_keyword, kind_eq_mark] at h
  obtain ⟨t₁, tail₁, hlt₁, rfl, ht₁, t₂, tail₂, name, hlt₂, rfl, ht₂, t₃, tail₃, hlt₃, rfl, ht₃, body, mid, hle, hbody,
    t₄, tail₄, hlt₄, rfl, ht₄, rfl, rfl⟩ := h
  obtain ⟨w, rfl, hw⟩ := exists_blockOf hbody
  exact ⟨t₁ :: t₂ :: t₃ :: w ++ [t₄], by simp, .mk ht₁ ht₂ ht₃ hw ht₄⟩

end MiniPascal.Parser
