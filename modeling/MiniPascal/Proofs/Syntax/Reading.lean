import MiniPascal.Proofs.Syntax.Grammar
import MiniPascal.Syntax.Parser

/-!
# What a rule reads

`reply.Reads a rest` says that a rule succeeds with `a` and leaves `rest`. Each way of putting rules together has one
equivalence here, from left to right for taking a successful reading apart and from right to left for building one. The
classes of tokens that the rules choose from are those that the grammar spells. `reply.Fails expected rest` says that a
rule gives up in front of `rest`; that is taken apart in the same way.
-/

namespace MiniPascal.Parser

variable {α β : Type} {n : Nat}

/-! ## Tokens -/

theorem is?_eq_some {kind : Token.Kind} {t : Token} {u : Unit} : t.is? kind = some u ↔ t.kind = kind := by
  simp [Token.is?]

theorem is?_of_kind {kind : Token.Kind} {t : Token} (h : t.kind = kind) : t.is? kind = some () := if_pos h

theorem kind_eq_mark {t : Token} {m : Mark} : t.kind = .mark m ↔ t = .mark m := by
  cases t <;> simp [Token.kind]

theorem kind_eq_keyword {t : Token} {word : Keyword} : t.kind = .keyword word ↔ t = .keyword word := by
  cases t <;> simp [Token.kind]

theorem name?_eq_some {t : Token} {name : String} : t.name? = some name ↔ t = .identifier name := by
  cases t <;> simp [Token.name?]

theorem value?_eq_some {t : Token} {value : Value} : t.value? = some value ↔ t = value.token := by
  cases t <;> cases value <;> simp [Token.value?, Value.token]

theorem sign?_eq_some {t : Token} {op : UnaryOperator} : t.sign? = some op ↔ t = op.token := by
  cases op <;> unfold Token.sign? <;> split <;> simp_all [UnaryOperator.token]

theorem additive?_eq_some {t : Token} {op : BinaryOperator} :
    t.additive? = some op ↔ t = op.token ∧ op.isAdditive = true := by
  cases op <;> unfold Token.additive? <;> split <;> simp_all [BinaryOperator.token, BinaryOperator.isAdditive]

theorem multiplicative?_eq_some {t : Token} {op : BinaryOperator} :
    t.multiplicative? = some op ↔ t = op.token ∧ op.isAdditive = false := by
  cases op <;> unfold Token.multiplicative? <;> split <;> simp_all [BinaryOperator.token, BinaryOperator.isAdditive]

theorem typeName?_eq_some {t : Token} {type : TypeName} : t.typeName? = some type ↔ t = type.token := by
  cases type <;> unfold Token.typeName? <;> split <;> simp_all [TypeName.token]

/-! ## Readings -/

/-- The rule succeeds with `a` and leaves `rest`. -/
def Reply.Reads (reply : Reply α n) (a : α) (rest : List Lexeme) : Prop := reply.result = .ok a ∧ reply.rest = rest

theorem Reply.Reads.length_le {reply : Reply α n} {a : α} {rest : List Lexeme} (h : reply.Reads a rest) :
    rest.length ≤ n := h.2 ▸ reply.length_le

theorem Taking.length_lt_of_reads {reply : Taking α n} {a : α} {rest : List Lexeme} (h : reply.Reads a rest) :
    rest.length < n := h.2 ▸ reply.length_lt a h.1

theorem reads_done {a b : α} {ts rest : List Lexeme} : (done a ts).Reads b rest ↔ b = a ∧ rest = ts := by
  simp [Reply.Reads, eq_comm]

theorem not_reads_unexpected {expected : Expected} {ts rest : List Lexeme} {a : α} :
    ¬ (unexpected expected ts).Reads a rest := by
  rintro ⟨h, -⟩
  cases ts <;> cases h

theorem reads_map {f : α → β} {reply : Reply α n} {b : β} {rest : List Lexeme} :
    (reply.map f).Reads b rest ↔ ∃ a, reply.Reads a rest ∧ b = f a := by
  unfold Reply.Reads
  rw [Reply.result_map, Reply.rest_map]
  cases reply.result with
  | ok a =>
    constructor
    · rintro ⟨h, hrest⟩
      cases h
      exact ⟨a, ⟨rfl, hrest⟩, rfl⟩
    · rintro ⟨a', ⟨h, hrest⟩, rfl⟩
      cases h
      exact ⟨rfl, hrest⟩
  | error e =>
    constructor
    · rintro ⟨h, -⟩; cases h
    · rintro ⟨a, ⟨h, -⟩, -⟩; cases h

theorem reads_weaken {m : Nat} {reply : Reply α m} {h : m ≤ n} {a : α} {rest : List Lexeme} :
    (reply.weaken h).Reads a rest ↔ reply.Reads a rest := Iff.rfl

theorem reads_andThen {reply : Reply α n} {b : β} {rest : List Lexeme}
    {next : α → (rest : List Lexeme) → rest.length ≤ n → Reply β rest.length} :
    (reply.andThen next).Reads b rest ↔
      ∃ a mid, ∃ h : mid.length ≤ n, reply.Reads a mid ∧ (next a mid h).Reads b rest := by
  cases hresult : reply.result with
  | ok a =>
    rw [Reply.andThen_of_ok hresult, reads_weaken]
    constructor
    · exact fun h => ⟨a, reply.rest, reply.length_le, ⟨hresult, rfl⟩, h⟩
    · rintro ⟨a', mid, hle, ⟨ha, rfl⟩, h⟩
      cases hresult.symm.trans ha
      exact h
  | error e =>
    rw [Reply.andThen_of_error hresult]
    constructor
    · rintro ⟨h, -⟩; cases h
    · rintro ⟨a, mid, hle, ⟨ha, -⟩, -⟩; cases hresult.symm.trans ha

/-- The first token is chosen, or it is not and the alternative is tried on the same tokens. -/
theorem reads_onNext {choose : Token → Option α} {ts rest : List Lexeme} {b : β} {otherwise : Reply β ts.length}
    {next : α → Nat → (rest : List Lexeme) → rest.length < ts.length → Reply β rest.length} :
    (onNext choose ts next otherwise).Reads b rest ↔
      (∃ t tail a, ∃ h : tail.length < ts.length, ts = t :: tail ∧ choose t.token = some a ∧
        (next a t.line tail h).Reads b rest) ∨
      (∀ t tail, ts = t :: tail → choose t.token = none) ∧ otherwise.Reads b rest := by
  cases ts with
  | nil => simp [onNext]
  | cons t tail =>
    cases h : choose t.token with
    | some a =>
      rw [onNext_of_some h, reads_weaken]
      constructor
      · exact fun hr => .inl ⟨t, tail, a, _, rfl, h, hr⟩
      · rintro (⟨t', tail', a', _, hts, ha, hr⟩ | ⟨hnone, -⟩)
        · cases hts
          cases h.symm.trans ha
          exact hr
        · cases h.symm.trans (hnone t tail rfl)
    | none =>
      rw [onNext_of_none h]
      constructor
      · exact fun hr => .inr ⟨fun t' tail' hts => by cases hts; exact h, hr⟩
      · rintro (⟨t', tail', a', _, hts, ha, -⟩ | ⟨-, hr⟩)
        · cases hts
          cases h.symm.trans ha
        · exact hr

theorem reads_onNext_of_some {choose : Token → Option α} {t : Lexeme} {tail rest : List Lexeme} {a : α} {b : β}
    {next : α → Nat → (rest : List Lexeme) → rest.length < (t :: tail).length → Reply β rest.length}
    {otherwise : Reply β (t :: tail).length} (h : choose t.token = some a) :
    (onNext choose (t :: tail) next otherwise).Reads b rest ↔
      (next a t.line tail (Nat.lt_succ_self _)).Reads b rest := by
  rw [onNext_of_some h, reads_weaken]

/-- The first token, if there is one, is not chosen. -/
def Stops (choose : Token → Option α) (ts : List Lexeme) : Prop := ∀ t tail, ts = t :: tail → choose t.token = none

theorem stops_cons {choose : Token → Option α} {t : Lexeme} {tail : List Lexeme} (h : choose t.token = none) :
    Stops choose (t :: tail) := fun t' tail' hts => by cases hts; exact h

theorem onNext_of_stops {choose : Token → Option α} {ts : List Lexeme} (h : Stops choose ts)
    (next : α → Nat → (rest : List Lexeme) → rest.length < ts.length → Reply β rest.length)
    (otherwise : Reply β ts.length) : onNext choose ts next otherwise = otherwise := by
  cases ts with
  | nil => rfl
  | cons t tail => exact onNext_of_none (h t tail rfl) next otherwise

theorem reads_onNext_of_stops {choose : Token → Option α} {ts rest : List Lexeme} {b : β}
    {next : α → Nat → (rest : List Lexeme) → rest.length < ts.length → Reply β rest.length}
    {otherwise : Reply β ts.length} (h : Stops choose ts) :
    (onNext choose ts next otherwise).Reads b rest ↔ otherwise.Reads b rest := by
  rw [onNext_of_stops h]

theorem reads_accept {expected : Expected} {choose : Token → Option α} {ts rest : List Lexeme} {b : β}
    {next : α → Nat → (rest : List Lexeme) → rest.length < ts.length → Reply β rest.length} :
    (accept expected choose ts next).Reads b rest ↔
      ∃ t tail a, ∃ h : tail.length < ts.length, ts = t :: tail ∧ choose t.token = some a ∧
        (next a t.line tail h).Reads b rest := by
  rw [accept, reads_onNext]
  exact or_iff_left fun h => not_reads_unexpected h.2

theorem reads_expect {kind : Token.Kind} {ts rest : List Lexeme} {b : β}
    {next : Nat → (rest : List Lexeme) → rest.length < ts.length → Reply β rest.length} :
    (expect kind ts next).Reads b rest ↔
      ∃ t tail, ∃ h : tail.length < ts.length, ts = t :: tail ∧ t.token.kind = kind ∧
        (next t.line tail h).Reads b rest := by
  rw [expect, reads_accept]
  simp [Token.is?]

theorem reads_identifier {ts rest : List Lexeme} {b : β}
    {next : String → Nat → (rest : List Lexeme) → rest.length < ts.length → Reply β rest.length} :
    (identifier ts next).Reads b rest ↔
      ∃ t tail name, ∃ h : tail.length < ts.length, ts = t :: tail ∧ t.token = .identifier name ∧
        (next name t.line tail h).Reads b rest := by
  rw [identifier, reads_accept]
  simp only [name?_eq_some]

/-! ## Building readings -/

theorem Reply.Reads.andThen {reply : Reply α n} {a : α} {b : β} {mid rest : List Lexeme}
    {next : α → (rest : List Lexeme) → rest.length ≤ n → Reply β rest.length} (h : reply.Reads a mid)
    (hnext : (next a mid h.length_le).Reads b rest) : (reply.andThen next).Reads b rest :=
  reads_andThen.mpr ⟨a, mid, h.length_le, h, hnext⟩

theorem Reply.Reads.map {reply : Reply α n} {a : α} {rest : List Lexeme} (f : α → β) (h : reply.Reads a rest) :
    (reply.map f).Reads (f a) rest := reads_map.mpr ⟨a, h, rfl⟩

theorem reads_done_self (a : α) (ts : List Lexeme) : (done a ts).Reads a ts := ⟨rfl, rfl⟩

theorem reads_expect_cons {kind : Token.Kind} {t : Lexeme} {tail rest : List Lexeme} {b : β}
    {next : Nat → (rest : List Lexeme) → rest.length < (t :: tail).length → Reply β rest.length}
    (ht : t.token.kind = kind) (h : (next t.line tail (Nat.lt_succ_self _)).Reads b rest) :
    (expect kind (t :: tail) next).Reads b rest :=
  reads_expect.mpr ⟨t, tail, Nat.lt_succ_self _, rfl, ht, h⟩

theorem reads_identifier_cons {t : Lexeme} {name : String} {tail rest : List Lexeme} {b : β}
    {next : String → Nat → (rest : List Lexeme) → rest.length < (t :: tail).length → Reply β rest.length}
    (ht : t.token = .identifier name) (h : (next name t.line tail (Nat.lt_succ_self _)).Reads b rest) :
    (identifier (t :: tail) next).Reads b rest :=
  reads_identifier.mpr ⟨t, tail, name, Nat.lt_succ_self _, rfl, ht, h⟩

/-! ## Failures -/

/-- The error of a rule that would have accepted something else than the first token. -/
def blame (expected : Expected) : List Lexeme → SyntaxError
  | [] => .unexpectedToken expected .endOfInput 0 0
  | t :: _ => .unexpectedToken expected t.token t.line t.column

/-- The rule fails in front of `rest` and blames its first token. -/
def Reply.Fails (reply : Reply α n) (expected : Expected) (rest : List Lexeme) : Prop :=
  reply.result = .error (blame expected rest) ∧ reply.rest = rest

theorem not_fails_done {a : α} {ts rest : List Lexeme} {expected : Expected} :
    ¬ (done a ts).Fails expected rest := by
  rintro ⟨h, -⟩
  cases h

theorem fails_unexpected {missed expected : Expected} {ts rest : List Lexeme} :
    (unexpected missed ts : Reply α ts.length).Fails expected rest ↔ expected = missed ∧ rest = ts := by
  constructor
  · rintro ⟨h, hrest⟩
    rw [rest_unexpected] at hrest
    subst hrest
    cases ts <;> cases h <;> exact ⟨rfl, rfl⟩
  · rintro ⟨rfl, rfl⟩
    cases rest <;> exact ⟨rfl, rfl⟩

theorem fails_map {f : α → β} {reply : Reply α n} {expected : Expected} {rest : List Lexeme} :
    (reply.map f).Fails expected rest ↔ reply.Fails expected rest := by
  unfold Reply.Fails
  rw [Reply.result_map, Reply.rest_map]
  cases reply.result with
  | ok a =>
    constructor
    · rintro ⟨h, -⟩; cases h
    · rintro ⟨h, -⟩; cases h
  | error e => simp [Except.map]

theorem fails_weaken {m : Nat} {reply : Reply α m} {h : m ≤ n} {expected : Expected} {rest : List Lexeme} :
    (reply.weaken h).Fails expected rest ↔ reply.Fails expected rest := Iff.rfl

/-- A sequence fails in its first part, or behind it. -/
theorem fails_andThen {reply : Reply α n} {expected : Expected} {rest : List Lexeme}
    {next : α → (rest : List Lexeme) → rest.length ≤ n → Reply β rest.length} :
    (reply.andThen next).Fails expected rest ↔ reply.Fails expected rest ∨
      ∃ a mid, ∃ h : mid.length ≤ n, reply.Reads a mid ∧ (next a mid h).Fails expected rest := by
  cases hresult : reply.result with
  | ok a =>
    rw [Reply.andThen_of_ok hresult, fails_weaken]
    constructor
    · exact fun h => .inr ⟨a, reply.rest, reply.length_le, ⟨hresult, rfl⟩, h⟩
    · rintro (⟨h, -⟩ | ⟨a', mid, hle, ⟨ha, rfl⟩, h⟩)
      · cases hresult.symm.trans h
      · cases hresult.symm.trans ha
        exact h
  | error e =>
    rw [Reply.andThen_of_error hresult]
    constructor
    · rintro ⟨h, hrest⟩
      cases h
      exact .inl ⟨hresult, hrest⟩
    · rintro (⟨h, hrest⟩ | ⟨a, mid, hle, ⟨ha, -⟩, -⟩)
      · cases hresult.symm.trans h
        exact ⟨rfl, hrest⟩
      · cases hresult.symm.trans ha

theorem fails_onNext {choose : Token → Option α} {ts rest : List Lexeme} {expected : Expected}
    {otherwise : Reply β ts.length}
    {next : α → Nat → (rest : List Lexeme) → rest.length < ts.length → Reply β rest.length} :
    (onNext choose ts next otherwise).Fails expected rest ↔
      (∃ t tail a, ∃ h : tail.length < ts.length, ts = t :: tail ∧ choose t.token = some a ∧
        (next a t.line tail h).Fails expected rest) ∨ Stops choose ts ∧ otherwise.Fails expected rest := by
  cases ts with
  | nil => simp [onNext, Stops]
  | cons t tail =>
    cases h : choose t.token with
    | some a =>
      rw [onNext_of_some h, fails_weaken]
      constructor
      · exact fun hf => .inl ⟨t, tail, a, _, rfl, h, hf⟩
      · rintro (⟨t', tail', a', _, hts, ha, hf⟩ | ⟨hstops, -⟩)
        · cases hts
          cases h.symm.trans ha
          exact hf
        · cases h.symm.trans (hstops t tail rfl)
    | none =>
      rw [onNext_of_none h]
      constructor
      · exact fun hf => .inr ⟨stops_cons h, hf⟩
      · rintro (⟨t', tail', a', _, hts, ha, -⟩ | ⟨-, hf⟩)
        · cases hts
          cases h.symm.trans ha
        · exact hf

/-- A token that has to be chosen is missed, or the rule fails behind it. -/
theorem fails_accept {missed expected : Expected} {choose : Token → Option α} {ts rest : List Lexeme}
    {next : α → Nat → (rest : List Lexeme) → rest.length < ts.length → Reply β rest.length} :
    (accept missed choose ts next).Fails expected rest ↔
      (∃ t tail a, ∃ h : tail.length < ts.length, ts = t :: tail ∧ choose t.token = some a ∧
        (next a t.line tail h).Fails expected rest) ∨ Stops choose ts ∧ expected = missed ∧ rest = ts := by
  rw [accept, fails_onNext, fails_unexpected]

theorem fails_expect {kind : Token.Kind} {ts rest : List Lexeme} {expected : Expected}
    {next : Nat → (rest : List Lexeme) → rest.length < ts.length → Reply β rest.length} :
    (expect kind ts next).Fails expected rest ↔
      (∃ t tail, ∃ h : tail.length < ts.length, ts = t :: tail ∧ t.token.kind = kind ∧
        (next t.line tail h).Fails expected rest) ∨
      Stops (Token.is? kind) ts ∧ expected = .token kind ∧ rest = ts := by
  rw [expect, fails_accept]
  simp [Token.is?]

theorem fails_identifier {ts rest : List Lexeme} {expected : Expected}
    {next : String → Nat → (rest : List Lexeme) → rest.length < ts.length → Reply β rest.length} :
    (identifier ts next).Fails expected rest ↔
      (∃ t tail name, ∃ h : tail.length < ts.length, ts = t :: tail ∧ t.token = .identifier name ∧
        (next name t.line tail h).Fails expected rest) ∨
      Stops Token.name? ts ∧ expected = .token .identifier ∧ rest = ts := by
  rw [identifier, fails_accept]
  simp only [name?_eq_some]

end MiniPascal.Parser
