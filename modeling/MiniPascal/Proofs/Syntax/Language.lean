import MiniPascal.Proofs.Syntax.Completeness
import MiniPascal.Proofs.Syntax.Soundness

/-!
# The language of the parser

A list of tokens counts up to its first end of input (`UpToEnd`). No word of the grammar contains an end of input
(`Grammar.endFree_programOf`), so that this is where the parser has to stop.

* `parse_eq_ok_iff`: the parser accepts the words of the grammar and nothing else, and returns the tree of the
  derivation.
-/

namespace MiniPascal

/-- No token of the word is an end of input. -/
def EndFree (w : List Lexeme) : Prop := ∀ t ∈ w, t.token ≠ .endOfInput

/-- `w` is what stands before the first end of input, or all if there is none. -/
def UpToEnd (ts w : List Lexeme) : Prop :=
  EndFree w ∧ (ts = w ∨ ∃ stop rest, stop.token = .endOfInput ∧ ts = w ++ [stop] ++ rest)

/-- The first end of input is where it stands. -/
theorem UpToEnd.eq_of_concat {ts w : List Lexeme} {stop : Lexeme} (h : UpToEnd (ts ++ [stop]) w) (hts : EndFree ts)
    (hstop : stop.token = .endOfInput) : w = ts := by
  rcases h with ⟨hw, rfl | ⟨stop', rest, hstop', hsplit⟩⟩
  · exact absurd hstop (hw stop (by simp))
  · rcases List.eq_nil_or_concat rest with rfl | ⟨rest, last, rfl⟩
    · rw [List.append_nil] at hsplit
      exact (List.append_inj_left' hsplit rfl).symm
    · rw [List.concat_eq_append, ← List.append_assoc] at hsplit
      have hfront := List.append_inj_left' hsplit rfl
      exact absurd hstop' (hts stop' (by simp [hfront]))

/-! ## Words without an end -/

theorem endFree_nil : EndFree [] := fun _ h => by cases h

theorem EndFree.cons {t : Lexeme} {token : Token} {w : List Lexeme} (hw : EndFree w) (ht : t.token = token)
    (hne : token ≠ .endOfInput := by nofun) : EndFree (t :: w) :=
  List.forall_mem_cons.mpr ⟨ht ▸ hne, hw⟩

theorem EndFree.append {w v : List Lexeme} (hw : EndFree w) (hv : EndFree v) : EndFree (w ++ v) :=
  List.forall_mem_append.mpr ⟨hw, hv⟩

theorem endFree_singleton {t : Lexeme} {token : Token} (ht : t.token = token)
    (hne : token ≠ .endOfInput := by nofun) : EndFree [t] :=
  endFree_nil.cons ht hne

namespace Grammar

mutual

theorem endFree_factorOf : ∀ {w : List Lexeme} {e : Expr}, FactorOf w e → EndFree w
  | _, _, @FactorOf.constant t value ht => endFree_singleton ht (by cases value <;> nofun)
  | _, _, .parentheses ht₁ hw ht₂ => ((endFree_expressionOf hw).cons ht₁).append (endFree_singleton ht₂)
  | _, _, @FactorOf.sign t op w e ht hw => (endFree_factorOf hw).cons ht (by cases op <;> nofun)
  | _, _, .variable ht => endFree_singleton ht

theorem endFree_termOf : ∀ {w : List Lexeme} {e : Expr}, TermOf w e → EndFree w
  | _, _, .factor hw => endFree_factorOf hw
  | _, _, @TermOf.chain t op w v left right hw ht _ hv =>
    (endFree_termOf hw).append ((endFree_factorOf hv).cons ht (by cases op <;> nofun))

theorem endFree_expressionOf : ∀ {w : List Lexeme} {e : Expr}, ExpressionOf w e → EndFree w
  | _, _, .term hw => endFree_termOf hw
  | _, _, @ExpressionOf.chain t op w v left right hw ht _ hv =>
    (endFree_expressionOf hw).append ((endFree_termOf hv).cons ht (by cases op <;> nofun))

end

mutual

theorem endFree_compoundOf : ∀ {w : List Lexeme} {children : List Statement}, CompoundOf w children → EndFree w
  | _, _, .mk ht₁ hw ht₂ => ((endFree_statementsOf hw).cons ht₁).append (endFree_singleton ht₂)

theorem endFree_statementOf : ∀ {w : List Lexeme} {s : Statement}, StatementOf w s → EndFree w
  | _, _, .compound hw => endFree_compoundOf hw
  | _, _, .assignment ht₁ ht₂ hw => ((endFree_expressionOf hw).cons ht₂).cons ht₁
  | _, _, .empty => endFree_nil

theorem endFree_statementsOf : ∀ {w : List Lexeme} {ss : List Statement}, StatementsOf w ss → EndFree w
  | _, _, .last hw => endFree_statementOf hw
  | _, _, .more hw ht hv => (endFree_statementOf hw).append ((endFree_statementsOf hv).cons ht)

end

theorem endFree_namesOf : ∀ {w : List Lexeme} {ns : List (String × Nat)}, NamesOf w ns → EndFree w
  | _, _, .last ht => endFree_singleton ht
  | _, _, .more ht₁ ht₂ hw => ((endFree_namesOf hw).cons ht₂).cons ht₁

theorem endFree_groupOf : ∀ {w : List Lexeme} {group : List TypedName}, GroupOf w group → EndFree w
  | _, _, @GroupOf.mk t₁ t₂ w ns type hw ht₁ ht₂ =>
    (endFree_namesOf hw).append ((endFree_singleton ht₂ (by cases type <;> nofun)).cons ht₁)

theorem endFree_variablesOf : ∀ {w : List Lexeme} {declared : List TypedName}, VariablesOf w declared → EndFree w
  | _, _, .last hw ht => (endFree_groupOf hw).append (endFree_singleton ht)
  | _, _, .more hw ht hv => (endFree_groupOf hw).append ((endFree_variablesOf hv).cons ht)

theorem endFree_variableSectionOf : ∀ {w : List Lexeme} {declared : List TypedName}, VariableSectionOf w declared →
    EndFree w
  | _, _, .none => endFree_nil
  | _, _, .some ht hw => (endFree_variablesOf hw).cons ht

theorem endFree_parameterGroupsOf : ∀ {w : List Lexeme} {declared : List TypedName}, ParameterGroupsOf w declared →
    EndFree w
  | _, _, .last hw => endFree_groupOf hw
  | _, _, .more hw ht hv => (endFree_groupOf hw).append ((endFree_parameterGroupsOf hv).cons ht)

theorem endFree_parametersOf : ∀ {w : List Lexeme} {declared : List TypedName}, ParametersOf w declared → EndFree w
  | _, _, .none => endFree_nil
  | _, _, .some ht₁ hw ht₂ => ((endFree_parameterGroupsOf hw).cons ht₁).append (endFree_singleton ht₂)

mutual

theorem endFree_procedureOf : ∀ {w : List Lexeme} {d : Declaration}, ProcedureOf w d → EndFree w
  | _, _, .mk ht₁ ht₂ hw ht₃ hv ht₄ =>
    have hheading := ((endFree_parametersOf hw).cons ht₂).cons ht₁
    (hheading.append ((endFree_blockOf hv).cons ht₃)).append (endFree_singleton ht₄)

theorem endFree_proceduresOf : ∀ {w : List Lexeme} {ds : List Declaration}, ProceduresOf w ds → EndFree w
  | _, _, .none => endFree_nil
  | _, _, .more hw hv => (endFree_procedureOf hw).append (endFree_proceduresOf hv)

theorem endFree_declarationsOf : ∀ {w : List Lexeme} {ds : List Declaration}, DeclarationsOf w ds → EndFree w
  | _, _, .mk hw hv => (endFree_variableSectionOf hw).append (endFree_proceduresOf hv)

theorem endFree_blockOf : ∀ {w : List Lexeme} {b : Block}, BlockOf w b → EndFree w
  | _, _, .mk hw hv => (endFree_declarationsOf hw).append (endFree_compoundOf hv)

end

theorem endFree_programOf {w : List Lexeme} {p : Program} (h : ProgramOf w p) : EndFree w := by
  obtain ⟨ht₁, ht₂, ht₃, hw, ht₄⟩ := h
  have hheading := (((endFree_blockOf hw).cons ht₃).cons ht₂).cons ht₁
  exact hheading.append (endFree_singleton ht₄)

section

variable {f : Lexeme → Lexeme} (htoken : ∀ t, (f t).token = t.token) (hline : ∀ t, (f t).line = t.line)
include htoken hline

mutual

theorem factorOf_map : ∀ {w : List Lexeme} {e : Expr}, FactorOf w e → FactorOf (w.map f) e
  | _, _, @FactorOf.constant t value ht => hline t ▸ .constant ((htoken t).trans ht)
  | _, _, @FactorOf.parentheses t₁ t₂ w e ht₁ hw ht₂ => by
    rw [List.map_append, List.map_cons]
    exact .parentheses ((htoken t₁).trans ht₁) (expressionOf_map hw) ((htoken t₂).trans ht₂)
  | _, _, @FactorOf.sign t op w e ht hw => hline t ▸ .sign ((htoken t).trans ht) (factorOf_map hw)
  | _, _, @FactorOf.variable t name ht => hline t ▸ .variable ((htoken t).trans ht)

theorem termOf_map : ∀ {w : List Lexeme} {e : Expr}, TermOf w e → TermOf (w.map f) e
  | _, _, .factor hw => .factor (factorOf_map hw)
  | _, _, @TermOf.chain t op w v left right hw ht hop hv => by
    rw [List.map_append, List.map_cons, ← hline t]
    exact .chain (termOf_map hw) ((htoken t).trans ht) hop (factorOf_map hv)

/-- A tree depends only on the tokens of its word and on their lines. -/
theorem expressionOf_map : ∀ {w : List Lexeme} {e : Expr}, ExpressionOf w e → ExpressionOf (w.map f) e
  | _, _, .term hw => .term (termOf_map hw)
  | _, _, @ExpressionOf.chain t op w v left right hw ht hop hv => by
    rw [List.map_append, List.map_cons, ← hline t]
    exact .chain (expressionOf_map hw) ((htoken t).trans ht) hop (termOf_map hv)

end

end

end Grammar

/-! ## Whole inputs -/

namespace Parser

theorem peek_eq_endOfInput {ts : List Lexeme} :
    peek ts = .endOfInput ↔ ts = [] ∨ ∃ stop rest, stop.token = .endOfInput ∧ ts = stop :: rest := by
  cases ts with
  | nil => simp [peek]
  | cons t tail =>
    have hkind : t.kind = .endOfInput ↔ t.token = .endOfInput := by
      unfold Lexeme.kind
      cases t.token <;> simp [Token.kind]
    simp [peek, hkind]

theorem toEnd_eq_ok {α : Type} {n : Nat} {reply : Reply α n} {a : α} :
    reply.toEnd = .ok a ↔ reply.Reads a reply.rest ∧ peek reply.rest = .endOfInput := by
  obtain ⟨result, rest, hle⟩ := reply
  unfold Reply.toEnd Reply.Reads
  cases result with
  | error e => simp
  | ok b =>
    cases rest with
    | nil => simp [peek]
    | cons t tail => by_cases h : t.kind = .endOfInput <;> simp [peek, h]

/-- A rule that reads the words of a symbol and nothing else accepts, as a whole input, just these words. -/
theorem toEnd_eq_ok_iff {α : Type} {rule : (ts : List Lexeme) → Reply α ts.length} {Of : List Lexeme → α → Prop}
    (hsound : ∀ {ts rest a}, (rule ts).Reads a rest → ∃ w, ts = w ++ rest ∧ Of w a)
    (hcomplete : ∀ {w rest a}, Of w a → peek rest = .endOfInput → (rule (w ++ rest)).Reads a rest)
    (hend : ∀ {w a}, Of w a → EndFree w) {ts : List Lexeme} {a : α} :
    (rule ts).toEnd = .ok a ↔ ∃ w, UpToEnd ts w ∧ Of w a := by
  rw [toEnd_eq_ok]
  constructor
  · rintro ⟨h, hpeek⟩
    obtain ⟨w, hts, hw⟩ := hsound h
    refine ⟨w, ⟨hend hw, ?_⟩, hw⟩
    rcases peek_eq_endOfInput.mp hpeek with hrest | ⟨stop, rest, hstop, hrest⟩
    · rw [hrest, List.append_nil] at hts
      exact .inl hts
    · rw [hrest] at hts
      exact .inr ⟨stop, rest, hstop, by simpa using hts⟩
  · rintro ⟨w, ⟨-, hts⟩, hw⟩
    have hread : ∃ rest, ts = w ++ rest ∧ peek rest = .endOfInput := by
      rcases hts with rfl | ⟨stop, rest, hstop, rfl⟩
      · exact ⟨[], by simp, rfl⟩
      · exact ⟨stop :: rest, by simp, peek_eq_endOfInput.mpr (.inr ⟨stop, rest, hstop, rfl⟩)⟩
    obtain ⟨rest, rfl, hpeek⟩ := hread
    have h := hcomplete hw hpeek
    exact ⟨⟨h.1, rfl⟩, by rw [h.2]; exact hpeek⟩

theorem parseProgram_eq_ok {ts : List Lexeme} {p : Program} :
    parseProgram ts = .ok p ↔ ∃ w, UpToEnd ts w ∧ Grammar.ProgramOf w p :=
  toEnd_eq_ok_iff exists_programOf (fun h _ => reads_programOf h _) Grammar.endFree_programOf

theorem parseExpression_eq_ok {ts : List Lexeme} {e : Expr} :
    parseExpression ts = .ok e ↔ ∃ w, UpToEnd ts w ∧ Grammar.ExpressionOf w e :=
  toEnd_eq_ok_iff exists_expressionOf (fun h hpeek => reads_expressionOf h (.inr (.inr (.inr hpeek))))
    Grammar.endFree_expressionOf

end Parser

/-- **The parser accepts exactly its grammar**, and builds the tree of the derivation. -/
theorem parse_eq_ok_iff (ts : List Lexeme) :
    (∀ p, parseProgram ts = .ok p ↔ ∃ w, UpToEnd ts w ∧ Grammar.ProgramOf w p) ∧
      ∀ e, parseExpression ts = .ok e ↔ ∃ w, UpToEnd ts w ∧ Grammar.ExpressionOf w e :=
  ⟨fun _ => Parser.parseProgram_eq_ok, fun _ => Parser.parseExpression_eq_ok⟩

end MiniPascal
