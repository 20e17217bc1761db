import MiniPascal.Proofs.Syntax.Reading

/-!
# One token of lookahead

Two inputs `u ++ r` and `u ++ r'`, where `r` and `r'` start with tokens of the same kind, cannot be told apart before a
token of `r` is taken: a rule that leaves `r` as it is does the same on both (`Tracks`). Each way of putting rules
together keeps this, provided that a choice of a token looks at its kind alone (`ByKind`).

* `Parser.tracks_program`, `Parser.tracks_expression`.
-/

namespace MiniPascal.Parser

variable {α β : Type}

/-! ## Choices -/

/-- The first token, the end of input if there is none. -/
def first : List Lexeme → Token
  | [] => .endOfInput
  | t :: _ => t.token

theorem peek_eq (ts : List Lexeme) : peek ts = (first ts).kind := by
  cases ts <;> rfl

/-- Whether a token is chosen depends on its kind, and the end of input is not. -/
structure ByKind (choose : Token → Option α) : Prop where
  isSome_eq : ∀ {t t' : Token}, t.kind = t'.kind → (choose t).isSome = (choose t').isSome
  endOfInput : choose .endOfInput = none

theorem ByKind.stops_iff {choose : Token → Option α} (h : ByKind choose) {ts : List Lexeme} :
    Stops choose ts ↔ choose (first ts) = none := by
  cases ts with
  | nil =>
    constructor
    · exact fun _ => h.endOfInput
    · intro _ t tail hts
      cases hts
  | cons t tail =>
    constructor
    · exact fun hstops => hstops t tail rfl
    · exact stops_cons

theorem ByKind.stops {choose : Token → Option α} (h : ByKind choose) {r r' : List Lexeme} (hpeek : peek r = peek r')
    (hstops : Stops choose r) : Stops choose r' := by
  rw [peek_eq, peek_eq] at hpeek
  rw [h.stops_iff] at hstops ⊢
  have hsome := h.isSome_eq hpeek
  rw [hstops] at hsome
  exact Option.not_isSome_iff_eq_none.mp (Bool.eq_false_iff.mp hsome.symm)

/-- A chosen token is taken. -/
theorem length_rest_onNext_lt {choose : Token → Option α} {ts : List Lexeme} (h : ¬ Stops choose ts)
    (next : α → Nat → (rest : List Lexeme) → rest.length < ts.length → Reply β rest.length)
    (otherwise : Reply β ts.length) : (onNext choose ts next otherwise).rest.length < ts.length := by
  cases ts with
  | nil => exact absurd (fun t tail hts => by cases hts) h
  | cons t tail =>
    cases hsome : choose t.token with
    | none => exact absurd (stops_cons hsome) h
    | some a =>
      rw [onNext_of_some hsome]
      exact Nat.lt_succ_of_le (next a t.line tail (Nat.lt_succ_self _)).length_le

theorem byKind_is? {kind : Token.Kind} (hkind : kind ≠ .endOfInput) : ByKind (Token.is? kind) where
  isSome_eq h := by simp [Token.is?, h]
  endOfInput := if_neg hkind.symm

theorem byKind_name? : ByKind Token.name? where
  isSome_eq {t t'} h := by cases t <;> cases t' <;> cases h <;> rfl
  endOfInput := rfl

theorem byKind_value? : ByKind Token.value? where
  isSome_eq {t t'} h := by cases t <;> cases t' <;> cases h <;> rfl
  endOfInput := rfl

theorem byKind_sign? : ByKind Token.sign? where
  isSome_eq {t t'} h := by cases t <;> cases t' <;> cases h <;> rfl
  endOfInput := rfl

theorem byKind_additive? : ByKind Token.additive? where
  isSome_eq {t t'} h := by cases t <;> cases t' <;> cases h <;> rfl
  endOfInput := rfl

theorem byKind_multiplicative? : ByKind Token.multiplicative? where
  isSome_eq {t t'} h := by cases t <;> cases t' <;> cases h <;> rfl
  endOfInput := rfl

theorem byKind_typeName? : ByKind Token.typeName? where
  isSome_eq {t t'} h := by cases t <;> cases t' <;> cases h <;> rfl
  endOfInput := rfl

/-! ## Replies to two inputs -/

/-- Unless the first rule takes a token of `r`, both leave the same tokens before `r` and `r'`, and they read the same
or miss the same. -/
def Tracks (r r' : List Lexeme) {n m : Nat} (reply : Reply α n) (reply' : Reply α m) : Prop :=
  r.length ≤ reply.rest.length → ∃ v,
    (∃ a, reply.Reads a (v ++ r) ∧ reply'.Reads a (v ++ r')) ∨
    ∃ expected, reply.Fails expected (v ++ r) ∧ reply'.Fails expected (v ++ r')

section Replies

variable {r r' u : List Lexeme}

theorem tracks_done (a : α) (u : List Lexeme) : Tracks r r' (done a (u ++ r)) (done a (u ++ r')) :=
  fun _ => ⟨u, .inl ⟨a, reads_done_self a _, reads_done_self a _⟩⟩

theorem tracks_unexpected (expected : Expected) (u : List Lexeme) :
    Tracks (α := α) r r' (unexpected expected (u ++ r)) (unexpected expected (u ++ r')) :=
  fun _ => ⟨u, .inr ⟨expected, fails_unexpected.mpr ⟨rfl, rfl⟩, fails_unexpected.mpr ⟨rfl, rfl⟩⟩⟩

theorem Tracks.map {n m : Nat} {reply : Reply α n} {reply' : Reply α m} (h : Tracks r r' reply reply') (f : α → β) :
    Tracks r r' (reply.map f) (reply'.map f) := by
  intro hlength
  obtain ⟨v, ⟨a, hr, hr'⟩ | ⟨expected, hf, hf'⟩⟩ := h hlength
  · exact ⟨v, .inl ⟨f a, hr.map f, hr'.map f⟩⟩
  · exact ⟨v, .inr ⟨expected, fails_map.mpr hf, fails_map.mpr hf'⟩⟩

/-- A sequence touches `r` if its first part does. -/
theorem length_rest_andThen_le {n : Nat} (reply : Reply α n)
    (next : α → (rest : List Lexeme) → rest.length ≤ n → Reply β rest.length) :
    (reply.andThen next).rest.length ≤ reply.rest.length := by
  cases hresult : reply.result with
  | ok a =>
    rw [Reply.andThen_of_ok hresult]
    exact (next a reply.rest reply.length_le).length_le
  | error e => simp [Reply.andThen_of_error hresult]

theorem andThen_of_reads {n : Nat} {reply : Reply α n} {a : α} {mid : List Lexeme} (h : reply.Reads a mid)
    (next : α → (rest : List Lexeme) → rest.length ≤ n → Reply β rest.length) :
    reply.andThen next = (next a mid h.length_le).weaken h.length_le := by
  obtain ⟨ha, rfl⟩ := h
  exact Reply.andThen_of_ok ha next

theorem Tracks.andThen_of_reads {reply : Reply α (u ++ r).length} {reply' : Reply α (u ++ r').length}
    {next : α → (rest : List Lexeme) → rest.length ≤ (u ++ r).length → Reply β rest.length}
    {next' : α → (rest : List Lexeme) → rest.length ≤ (u ++ r').length → Reply β rest.length}
    (h : Tracks r r' reply reply')
    (hnext : ∀ a v, reply.Reads a (v ++ r) → ∀ hle hle', Tracks r r' (next a (v ++ r) hle) (next' a (v ++ r') hle')) :
    Tracks r r' (reply.andThen next) (reply'.andThen next') := by
  intro hlength
  -- what follows leaves at most what the first part leaves, so the first part did not touch `r` either
  obtain ⟨v, ⟨a, hr, hr'⟩ | ⟨expected, hf, hf'⟩⟩ := h (Nat.le_trans hlength (length_rest_andThen_le reply next))
  · rw [Parser.andThen_of_reads hr] at hlength ⊢
    rw [Parser.andThen_of_reads hr']
    exact hnext a v hr hr.length_le hr'.length_le hlength
  · exact ⟨v, .inr ⟨expected, fails_andThen.mpr (.inl hf), fails_andThen.mpr (.inl hf')⟩⟩

theorem Tracks.andThen {reply : Reply α (u ++ r).length} {reply' : Reply α (u ++ r').length}
    {next : α → (rest : List Lexeme) → rest.length ≤ (u ++ r).length → Reply β rest.length}
    {next' : α → (rest : List Lexeme) → rest.length ≤ (u ++ r').length → Reply β rest.length}
    (h : Tracks r r' reply reply')
    (hnext : ∀ a v, v.length ≤ u.length → ∀ hle hle', Tracks r r' (next a (v ++ r) hle) (next' a (v ++ r') hle')) :
    Tracks r r' (reply.andThen next) (reply'.andThen next') :=
  h.andThen_of_reads fun a v hr => hnext a v (by simpa using hr.length_le)

theorem tracks_onNext {choose : Token → Option α} (hchoose : ByKind choose) (hpeek : peek r = peek r')
    {next : α → Nat → (rest : List Lexeme) → rest.length < (u ++ r).length → Reply β rest.length}
    {next' : α → Nat → (rest : List Lexeme) → rest.length < (u ++ r').length → Reply β rest.length}
    {otherwise : Reply β (u ++ r).length} {otherwise' : Reply β (u ++ r').length}
    (hnext : ∀ a line v, v.length < u.length → ∀ hlt hlt',
      Tracks r r' (next a line (v ++ r) hlt) (next' a line (v ++ r') hlt'))
    (hother : Tracks r r' otherwise otherwise') :
    Tracks r r' (onNext choose (u ++ r) next otherwise) (onNext choose (u ++ r') next' otherwise') := by
  cases u with
  | nil =>
    -- the next token is the first of `r`: it is left, or there is nothing to show
    by_cases hstops : Stops choose r
    · have hr : onNext choose ([] ++ r) next otherwise = otherwise := onNext_of_stops hstops next otherwise
      have hr' : onNext choose ([] ++ r') next' otherwise' = otherwise' :=
        onNext_of_stops (hchoose.stops hpeek hstops) next' otherwise'
      rw [hr, hr']
      exact hother
    · intro hlength
      exact absurd hlength (Nat.not_le_of_lt (length_rest_onNext_lt hstops next otherwise))
  | cons t v =>
    have hv : v.length < (t :: v).length := Nat.lt_succ_self _
    cases hsome : choose t.token with
    | some a =>
      simp only [List.cons_append]
      rw [onNext_of_some hsome, onNext_of_some hsome]
      exact hnext a t.line v hv _ _
    | none =>
      simp only [List.cons_append]
      rw [onNext_of_none hsome, onNext_of_none hsome]
      exact hother

theorem tracks_accept {expected : Expected} {choose : Token → Option α} (hchoose : ByKind choose)
    (hpeek : peek r = peek r')
    {next : α → Nat → (rest : List Lexeme) → rest.length < (u ++ r).length → Reply β rest.length}
    {next' : α → Nat → (rest : List Lexeme) → rest.length < (u ++ r').length → Reply β rest.length}
    (hnext : ∀ a line v, v.length < u.length → ∀ hlt hlt',
      Tracks r r' (next a line (v ++ r) hlt) (next' a line (v ++ r') hlt')) :
    Tracks r r' (accept expected choose (u ++ r) next) (accept expected choose (u ++ r') next') :=
  tracks_onNext hchoose hpeek hnext (tracks_unexpected expected u)

theorem tracks_expect {kind : Token.Kind} (hkind : kind ≠ .endOfInput) (hpeek : peek r = peek r')
    {next : Nat → (rest : List Lexeme) → rest.length < (u ++ r).length → Reply β rest.length}
    {next' : Nat → (rest : List Lexeme) → rest.length < (u ++ r').length → Reply β rest.length}
    (hnext : ∀ line v, v.length < u.length → ∀ hlt hlt',
      Tracks r r' (next line (v ++ r) hlt) (next' line (v ++ r') hlt')) :
    Tracks r r' (expect kind (u ++ r) next) (expect kind (u ++ r') next') :=
  tracks_accept (byKind_is? hkind) hpeek fun _ => hnext

theorem tracks_identifier (hpeek : peek r = peek r')
    {next : String → Nat → (rest : List Lexeme) → rest.length < (u ++ r).length → Reply β rest.length}
    {next' : String → Nat → (rest : List Lexeme) → rest.length < (u ++ r').length → Reply β rest.length}
    (hnext : ∀ name line v, v.length < u.length → ∀ hlt hlt',
      Tracks r r' (next name line (v ++ r) hlt) (next' name line (v ++ r') hlt')) :
    Tracks r r' (identifier (u ++ r) next) (identifier (u ++ r') next') :=
  tracks_accept byKind_name? hpeek hnext

theorem peek_append (hpeek : peek r = peek r') (u : List Lexeme) : peek (u ++ r) = peek (u ++ r') := by
  cases u with
  | nil => exact hpeek
  | cons t v => rfl

end Replies

/-! ## Expressions -/

section Rules

variable {r r' : List Lexeme}

mutual

theorem tracks_factor (hpeek : peek r = peek r') (u : List Lexeme) :
    Tracks r r' (factor (u ++ r)) (factor (u ++ r')) := by
  rw [factor, factor]
  refine tracks_onNext byKind_sign? hpeek (fun op line v hv _ _ => ?_) ?_
  · exact (tracks_factor hpeek v).map _
  refine tracks_onNext byKind_value? hpeek (fun value line v _ _ _ => tracks_done _ v) ?_
  refine tracks_onNext byKind_name? hpeek (fun name line v _ _ _ => tracks_done _ v) ?_
  refine tracks_onNext (byKind_is? (by decide)) hpeek (fun _ line v hv _ _ => ?_) (tracks_unexpected _ u)
  refine (tracks_expression hpeek v).andThen fun e v' _ _ _ => ?_
  exact tracks_expect (by decide) hpeek fun _ v'' _ _ _ => tracks_done e v''
termination_by 4 * u.length
decreasing_by all_goals omega

theorem tracks_multiplicative (hpeek : peek r = peek r') (u : List Lexeme) :
    Tracks r r' (multiplicative (u ++ r)) (multiplicative (u ++ r')) := by
  rw [multiplicative, multiplicative]
  exact (tracks_factor hpeek u).andThen fun left v hv _ _ => tracks_multiplicativeRest hpeek left v
termination_by 4 * u.length + 1
decreasing_by all_goals omega

theorem tracks_multiplicativeRest (hpeek : peek r = peek r') (left : Expr) (u : List Lexeme) :
    Tracks r r' (multiplicativeRest left (u ++ r)) (multiplicativeRest left (u ++ r')) := by
  rw [multiplicativeRest, multiplicativeRest]
  refine tracks_onNext byKind_multiplicative? hpeek (fun op line v hv _ _ => ?_) (tracks_done left u)
  exact (tracks_factor hpeek v).andThen fun right v' hv' _ _ => tracks_multiplicativeRest hpeek _ v'
termination_by 4 * u.length
decreasing_by all_goals omega

theorem tracks_additive (hpeek : peek r = peek r') (u : List Lexeme) :
    Tracks r r' (additive (u ++ r)) (additive (u ++ r')) := by
  rw [additive, additive]
  exact (tracks_multiplicative hpeek u).andThen fun left v hv _ _ => tracks_additiveRest hpeek left v
termination_by 4 * u.length + 2
decreasing_by all_goals omega

theorem tracks_additiveRest (hpeek : peek r = peek r') (left : Expr) (u : List Lexeme) :
    Tracks r r' (additiveRest left (u ++ r)) (additiveRest left (u ++ r')) := by
  rw [additiveRest, additiveRest]
  refine tracks_onNext byKind_additive? hpeek (fun op line v hv _ _ => ?_) (tracks_done left u)
  exact (tracks_multiplicative hpeek v).andThen fun right v' hv' _ _ => tracks_additiveRest hpeek _ v'
termination_by 4 * u.length
decreasing_by all_goals omega

theorem tracks_expression (hpeek : peek r = peek r') (u : List Lexeme) :
    Tracks r r' (expression (u ++ r)) (expression (u ++ r')) := by
  rw [expression, expression]
  exact tracks_additive hpeek u
termination_by 4 * u.length + 3

end

/-! ## Statements -/

theorem tracks_assignment (hpeek : peek r = peek r') (u : List Lexeme) :
    Tracks r r' (assignment (u ++ r)) (assignment (u ++ r')) := by
  refine tracks_identifier hpeek fun target targetLine v _ _ _ => ?_
  refine tracks_expect (by decide) hpeek fun line v' _ _ _ => ?_
  exact (tracks_expression hpeek v').map _

mutual

theorem tracks_compound (hpeek : peek r = peek r') (u : List Lexeme) :
    Tracks r r' (compound (u ++ r)) (compound (u ++ r')) := by
  rw [compound, compound]
  refine tracks_expect (by decide) hpeek fun _ v hv _ _ => ?_
  refine (tracks_statements hpeek v).andThen fun children v' _ _ _ => ?_
  exact tracks_expect (by decide) hpeek fun _ v'' _ _ _ => tracks_done children v''
termination_by 3 * u.length
decreasing_by all_goals omega

theorem tracks_statement (hpeek : peek r = peek r') (u : List Lexeme) :
    Tracks r r' (statement (u ++ r)) (statement (u ++ r')) := by
  rw [statement, statement, peek_append hpeek u]
  split
  · exact (tracks_compound hpeek u).map _
  · exact tracks_assignment hpeek u
  · exact tracks_done _ u
termination_by 3 * u.length + 1
decreasing_by all_goals omega

theorem tracks_statements (hpeek : peek r = peek r') (u : List Lexeme) :
    Tracks r r' (statements (u ++ r)) (statements (u ++ r')) := by
  rw [statements, statements]
  refine (tracks_statement hpeek u).andThen fun first v hv _ _ => ?_
  refine tracks_onNext (byKind_is? (by decide)) hpeek (fun _ _ v' hv' _ _ => ?_) (tracks_done [first] v)
  exact (tracks_statements hpeek v').map _
termination_by 3 * u.length + 2
decreasing_by all_goals omega

end

/-! ## Declarations -/

theorem tracks_names (hpeek : peek r = peek r') (u : List Lexeme) :
    Tracks r r' (names (u ++ r)) (names (u ++ r')) := by
  rw [names, names]
  refine tracks_identifier hpeek fun name line v hv _ _ => ?_
  refine tracks_onNext (byKind_is? (by decide)) hpeek (fun _ _ v' hv' _ _ => ?_) (tracks_done [(name, line)] v)
  exact (tracks_names hpeek v').map _
termination_by u.length
decreasing_by omega

theorem tracks_typedNames (hpeek : peek r = peek r') (u : List Lexeme) :
    Tracks r r' (typedNames (u ++ r)) (typedNames (u ++ r')) := by
  refine (tracks_names hpeek u).andThen fun ns v _ _ _ => ?_
  refine tracks_expect (by decide) hpeek fun _ v' _ _ _ => ?_
  exact tracks_accept byKind_typeName? hpeek fun type line v'' _ _ _ => tracks_done _ v''

theorem tracks_variableGroups (hpeek : peek r = peek r') (u : List Lexeme) :
    Tracks r r' (variableGroups (u ++ r)) (variableGroups (u ++ r')) := by
  rw [variableGroups, variableGroups]
  refine (tracks_typedNames hpeek u).andThen fun group v hv _ _ => ?_
  refine tracks_expect (by decide) hpeek fun _ v' hv' _ _ => ?_
  rw [peek_append hpeek v']
  split
  · exact (tracks_variableGroups hpeek v').map _
  · exact tracks_done group v'
termination_by u.length
decreasing_by omega

theorem tracks_variableSection (hpeek : peek r = peek r') (u : List Lexeme) :
    Tracks r r' (variableSection (u ++ r)) (variableSection (u ++ r')) :=
  tracks_onNext (byKind_is? (by decide)) hpeek (fun _ _ v _ _ _ => tracks_variableGroups hpeek v) (tracks_done [] u)

theorem tracks_parameterGroups (hpeek : peek r = peek r') (u : List Lexeme) :
    Tracks r r' (parameterGroups (u ++ r)) (parameterGroups (u ++ r')) := by
  rw [parameterGroups, parameterGroups]
  refine (tracks_typedNames hpeek u).andThen fun group v hv _ _ => ?_
  refine tracks_onNext (byKind_is? (by decide)) hpeek (fun _ _ v' hv' _ _ => ?_) (tracks_done group v)
  exact (tracks_parameterGroups hpeek v').map _
termination_by u.length
decreasing_by omega

theorem tracks_parameters (hpeek : peek r = peek r') (u : List Lexeme) :
    Tracks r r' (parameters (u ++ r)) (parameters (u ++ r')) := by
  refine tracks_onNext (byKind_is? (by decide)) hpeek (fun _ _ v _ _ _ => ?_) (tracks_done [] u)
  refine (tracks_parameterGroups hpeek v).andThen fun group v' _ _ _ => ?_
  exact tracks_expect (by decide) hpeek fun _ v'' _ _ _ => tracks_done group v''

mutual

theorem tracks_procedures (hpeek : peek r = peek r') (u : List Lexeme) :
    Tracks r r' (procedures (u ++ r)) (procedures (u ++ r')) := by
  rw [procedures_eq, procedures_eq, ← peek_append hpeek]
  split
  · refine (tracks_procedure hpeek u).andThen_of_reads fun first v hr _ _ => ?_
    have hv : v.length < u.length := by simpa using Taking.length_lt_of_reads hr
    exact (tracks_procedures hpeek v).map _
  · exact tracks_done [] u
termination_by 4 * u.length + 1
decreasing_by all_goals omega

theorem tracks_procedure (hpeek : peek r = peek r') (u : List Lexeme) :
    Tracks r r' (procedure (u ++ r)).toReply (procedure (u ++ r')).toReply := by
  rw [procedure, procedure]
  refine tracks_expect (by decide) hpeek fun line v₀ hv₀ _ _ => ?_
  refine tracks_identifier hpeek fun name _ v hv _ _ => ?_
  refine (tracks_parameters hpeek v).andThen fun group v' hv' _ _ => ?_
  refine tracks_expect (by decide) hpeek fun _ v₁ hv₁ _ _ => ?_
  refine (tracks_block hpeek v₁).andThen fun body v₂ _ _ _ => ?_
  exact tracks_expect (by decide) hpeek fun _ v₃ _ _ _ => tracks_done _ v₃
termination_by 4 * u.length
decreasing_by all_goals omega

theorem tracks_declarations (hpeek : peek r = peek r') (u : List Lexeme) :
    Tracks r r' (declarations (u ++ r)) (declarations (u ++ r')) := by
  rw [declarations, declarations]
  refine (tracks_variableSection hpeek u).andThen fun vars v hv _ _ => ?_
  exact (tracks_procedures hpeek v).map _
termination_by 4 * u.length + 2
decreasing_by all_goals omega

theorem tracks_block (hpeek : peek r = peek r') (u : List Lexeme) :
    Tracks r r' (block (u ++ r)) (block (u ++ r')) := by
  rw [block, block]
  refine (tracks_declarations hpeek u).andThen fun decls v _ _ _ => ?_
  exact (tracks_compound hpeek v).map _
termination_by 4 * u.length + 3
decreasing_by all_goals omega

end

/-! ## Programs -/

theorem tracks_program (hpeek : peek r = peek r') (u : List Lexeme) :
    Tracks r r' (program (u ++ r)) (program (u ++ r')) := by
  refine tracks_expect (by decide) hpeek fun line v _ _ _ => ?_
  refine tracks_identifier hpeek fun name _ v₁ _ _ _ => ?_
  refine tracks_expect (by decide) hpeek fun _ v₂ _ _ _ => ?_
  refine (tracks_block hpeek v₂).andThen fun body v₃ _ _ _ => ?_
  exact tracks_expect (by decide) hpeek fun _ v₄ _ _ _ => tracks_done _ v₄

end Rules

end MiniPascal.Parser
