import Mathlib.Logic.Relation
import MiniPascal.Proofs.Syntax.Completeness
import MiniPascal.Proofs.Syntax.Scripts

/-!
# Only forward

Why the scripts do not run forever is seen in each of them alone: a call has fewer tokens than its caller, or it has no
more and is of a routine of a lower rank (`Call.Below`). Whether there are fewer depends on the calls before it, which
have taken a token or need not have (`Routine.takes`). So the body of a routine is checked against what its calls may
leave (`Script.Descends`), and that they leave no more follows for whole runs (`Script.Ends`).

* `Call.ends_reply`: every call ends, with its reply.
* `rules_advance`: what calls leave, and how far they have come when a routine is called again.
-/

namespace MiniPascal.Parser

namespace Routine

/-- Whether success takes at least one token. All rules do but for a statement, a list of statements and declarations;
the others are loops, which may take no turn, and parts of rules that may be missing. -/
def takes : Routine → Bool
  | statement | statements | declarations => false
  | multiplicativeRest | additiveRest | procedures => false
  | variableSection | parameters => false
  | _ => true

/-- A routine calls those of lower ranks before it has taken a token. -/
def rank : Routine → Nat
  | token _ | identifier | typeName => 0
  | multiplicative | statement | typedNames | procedures => 2
  | additive | statements | variableGroups | parameterGroups | declarations => 3
  | expression | block => 4
  | _ => 1

theorem rank_le (routine : Routine) : routine.rank ≤ 4 := by
  cases routine <;> simp [rank]

end Routine

/-! ## What is left -/

/-- `rest` is what is left of the tokens of a call, less than all of them if some were taken. -/
def Call.Left (c : Call) (taken : Bool) (rest : List Lexeme) : Prop :=
  rest <:+ c.tokens ∧ (taken = true → rest.length < c.tokens.length)

/-- The first call has fewer tokens, or no more of them and a routine of a lower rank. -/
def Call.Below (c' c : Call) : Prop :=
  c'.tokens <:+ c.tokens ∧ (c'.tokens.length < c.tokens.length ∨ c'.routine.rank < c.routine.rank)

/-- All calls of the script are below `c`, and it leaves what `c` may leave, if its calls leave what they may. -/
def Script.Descends {α : Type} (c : Call) : Script α → Prop
  | done _ rest => c.Left c.routine.takes rest
  | fail _ rest => c.Left false rest
  | call c' next => c'.Below c ∧ ∀ a rest, c'.Left c'.routine.takes rest → (next a rest).Descends c

namespace Call.Left

variable {α β : Type} {c : Call} {taken : Bool} {ts : List Lexeme}

theorem start (c : Call) : c.Left false c.tokens := ⟨List.suffix_rfl, nofun⟩

theorem weaken (h : c.Left taken ts) {fewer : Bool} (hle : fewer = true → taken = true) : c.Left fewer ts :=
  ⟨h.1, fun hfewer => h.2 (hle hfewer)⟩

theorem trans (h : c.Left taken ts) {routine : Routine} {argument : routine.Argument} {more : Bool}
    {rest : List Lexeme} (hrest : (⟨routine, argument, ts⟩ : Call).Left more rest) :
    c.Left (taken || more) rest := by
  obtain ⟨hsuffix, hshorter⟩ := h
  obtain ⟨hsuffix', hshorter'⟩ := hrest
  refine ⟨hsuffix'.trans hsuffix, fun htaken => ?_⟩
  have hle := hsuffix.length_le
  have hle' := hsuffix'.length_le
  rcases Bool.or_eq_true_iff.mp htaken with htaken | hmore
  · exact Nat.lt_of_le_of_lt hle' (hshorter htaken)
  · exact Nat.lt_of_lt_of_le (hshorter' hmore) hle

theorem done (h : c.Left taken ts) {a : α} (htaken : (!c.routine.takes || taken) = true := by rfl) :
    (Script.done a ts).Descends c :=
  h.weaken fun htakes => by rwa [htakes] at htaken

theorem unexpected (h : c.Left taken ts) {expected : Expected} :
    (Script.unexpected expected ts : Script α).Descends c :=
  h.weaken nofun

theorem onNext (h : c.Left taken ts) {choose : Token → Option α} {next : α → Nat → List Lexeme → Script β}
    {otherwise : Script β} (hnext : ∀ a line rest, c.Left true rest → (next a line rest).Descends c)
    (hotherwise : otherwise.Descends c) : (Script.onNext choose ts next otherwise).Descends c := by
  unfold Script.onNext
  split
  · exact hotherwise
  next t rest =>
    split
    · refine hnext _ _ _ ⟨(List.suffix_cons t rest).trans h.1, fun _ => ?_⟩
      exact Nat.lt_of_lt_of_le (Nat.lt_succ_self _) h.1.length_le
    · exact hotherwise

theorem take (h : c.Left taken ts) {expected : Expected} {choose : Token → Option α} {pack : α → Nat → β} :
    (Script.take expected choose pack ts).Descends c :=
  h.onNext (fun _ _ _ hrest => hrest.weaken fun _ => rfl) h.unexpected

theorem call (h : c.Left taken ts) {routine : Routine} {argument : routine.Argument}
    {next : routine.Tree → List Lexeme → Script α}
    (hnext : ∀ a rest, c.Left (taken || routine.takes) rest → (next a rest).Descends c)
    (hbelow : (taken || decide (routine.rank < c.routine.rank)) = true := by rfl) :
    (Script.call ⟨routine, argument, ts⟩ next).Descends c := by
  refine ⟨⟨h.1, ?_⟩, fun a rest hrest => hnext a rest (h.trans hrest)⟩
  rcases Bool.or_eq_true_iff.mp hbelow with htaken | hrank
  · exact .inl (h.2 htaken)
  · exact .inr (of_decide_eq_true hrank)

end Call.Left

/-- The body of each routine descends. The proof of a case has the shape of the body, and keeps the account of what has
been taken. -/
theorem Call.descends_script (c : Call) : c.script.Descends c := by
  have start := Call.Left.start c
  obtain ⟨routine, argument, ts⟩ := c
  unfold Call.script
  cases routine with
  | token kind => exact start.take
  | identifier => exact start.take
  | typeName => exact start.take
  | factor =>
    refine start.onNext (fun _ _ _ h => h.call fun _ _ h => h.done) ?_
    refine start.onNext (fun _ _ _ h => h.done) ?_
    refine start.onNext (fun _ _ _ h => h.done) ?_
    exact start.onNext (fun _ _ _ h => h.call fun _ _ h => h.call fun _ _ h => h.done) start.unexpected
  | multiplicative => exact start.call fun _ _ h => h.call fun _ _ h => h.done
  | multiplicativeRest => exact start.onNext (fun _ _ _ h => h.call fun _ _ h => h.call fun _ _ h => h.done) start.done
  | additive => exact start.call fun _ _ h => h.call fun _ _ h => h.done
  | additiveRest => exact start.onNext (fun _ _ _ h => h.call fun _ _ h => h.call fun _ _ h => h.done) start.done
  | expression => exact start.call fun _ _ h => h.done
  | assignment => exact start.call fun _ _ h => h.call fun _ _ h => h.call fun _ _ h => h.done
  | compound => exact start.call fun _ _ h => h.call fun _ _ h => h.call fun _ _ h => h.done
  | statement =>
    dsimp only
    split
    · exact start.call fun _ _ h => h.done
    · split
      · exact start.call fun _ _ h => h.done
      · exact start.done
  | statements => exact start.call fun _ _ h => h.onNext (fun _ _ _ h => h.call fun _ _ h => h.done) h.done
  | names => exact start.call fun _ _ h => h.onNext (fun _ _ _ h => h.call fun _ _ h => h.done) h.done
  | typedNames => exact start.call fun _ _ h => h.call fun _ _ h => h.call fun _ _ h => h.done
  | variableGroups =>
    refine start.call fun _ _ h => h.call fun _ _ h => ?_
    split
    · exact h.call fun _ _ h => h.done
    · exact h.done
  | variableSection => exact start.onNext (fun _ _ _ h => h.call fun _ _ h => h.done) start.done
  | parameterGroups => exact start.call fun _ _ h => h.onNext (fun _ _ _ h => h.call fun _ _ h => h.done) h.done
  | parameters => exact start.onNext (fun _ _ _ h => h.call fun _ _ h => h.call fun _ _ h => h.done) start.done
  | procedures =>
    dsimp only
    split
    · exact start.call fun _ _ h => h.call fun _ _ h => h.done
    · exact start.done
  | procedure =>
    refine start.call fun _ _ h => h.call fun _ _ h => h.call fun _ _ h => ?_
    exact h.call fun _ _ h => h.call fun _ _ h => h.call fun _ _ h => h.done
  | declarations => exact start.call fun _ _ h => h.call fun _ _ h => h.done
  | block => exact start.call fun _ _ h => h.call fun _ _ h => h.done
  | program =>
    refine start.call fun _ _ h => h.call fun _ _ h => ?_
    exact h.call fun _ _ h => h.call fun _ _ h => h.call fun _ _ h => h.done

/-! ## Runs -/

/-- A finite run of a script, in which each call runs to its own end. -/
inductive Script.Ends : {α : Type} → Script α → Except SyntaxError α → List Lexeme → Prop
  | done {α : Type} (a : α) (rest : List Lexeme) : Ends (.done a rest) (.ok a) rest
  | fail {α : Type} (e : SyntaxError) (rest : List Lexeme) : Ends (.fail e rest : Script α) (.error e) rest
  | success {α : Type} {c : Call} {next : c.routine.Tree → List Lexeme → Script α} {a : c.routine.Tree}
      {mid rest : List Lexeme} {result : Except SyntaxError α} : Ends c.script (.ok a) mid →
      Ends (next a mid) result rest → Ends (.call c next) result rest
  | failure {α : Type} {c : Call} {next : c.routine.Tree → List Lexeme → Script α} {e : SyntaxError}
      {rest : List Lexeme} : Ends c.script (.error e) rest → Ends (.call c next) (.error e) rest

section

variable {α : Type} {s : Script α} {result : Except SyntaxError α} {rest : List Lexeme}

/-- A run that ends leaves what it may leave. -/
theorem Script.Ends.left (h : s.Ends result rest) {c : Call} (hs : s.Descends c) :
    c.Left (result.isOk && c.routine.takes) rest := by
  induction h generalizing c with
  | done a rest => exact hs
  | fail e rest => exact hs
  | @success _ c' _ _ _ _ _ _ _ ih ihnext => exact ihnext (hs.2 _ _ (ih c'.descends_script))
  | @failure _ c' _ _ _ _ ih =>
    have hleft := ih c'.descends_script
    exact ⟨hleft.1.trans hs.1.1, nofun⟩

/-- A run that ends gives what the routines reply. -/
theorem Script.Ends.run_eq (h : s.Ends result rest) : s.run = (result, rest) := by
  induction h with
  | done a rest => rfl
  | fail e rest => rfl
  | @success _ c _ _ _ _ _ _ _ ih ihnext =>
    obtain ⟨hresult, hrest⟩ := Prod.mk.inj (c.gives_script.symm.trans ih)
    rw [Script.run, hresult, hrest]
    exact ihnext
  | @failure _ c _ _ _ _ ih =>
    obtain ⟨hresult, hrest⟩ := Prod.mk.inj (c.gives_script.symm.trans ih)
    rw [Script.run, hresult, hrest]

/-- A script that descends ends if all calls below do. -/
theorem Script.Descends.exists_ends {c : Call}
    (ih : ∀ c' : Call, c'.Below c → ∃ result rest, c'.script.Ends result rest) :
    ∀ {s : Script α}, s.Descends c → ∃ result rest, s.Ends result rest
  | .done a rest, _ => ⟨.ok a, rest, .done a rest⟩
  | .fail e rest, _ => ⟨.error e, rest, .fail e rest⟩
  | .call c' next, hs => by
    obtain ⟨result, mid, hcall⟩ := ih c' hs.1
    cases result with
    | error e => exact ⟨.error e, mid, .failure hcall⟩
    | ok a =>
      have hnext := hs.2 a mid (hcall.left c'.descends_script)
      obtain ⟨result, rest, hrest⟩ := exists_ends ih hnext
      exact ⟨result, rest, .success hcall hrest⟩

end

namespace Call

/-- No more calls than this can be made within a call and within one another. -/
def height (c : Call) : Nat := 5 * c.tokens.length + c.routine.rank

theorem Below.height_lt {c c' : Call} (h : c'.Below c) : c'.height < c.height := by
  have hle := h.1.length_le
  have hrank := c'.routine.rank_le
  unfold height
  rcases h.2 with hlt | hlt <;> omega

theorem wellFounded_below : WellFounded Below := Subrelation.wf Below.height_lt (measure height).wf

theorem exists_ends (c : Call) : ∃ result rest, c.script.Ends result rest := by
  induction c using wellFounded_below.induction with
  | _ c ih => exact c.descends_script.exists_ends ih

/-- Every call ends, with its reply. -/
theorem ends_reply (c : Call) : c.script.Ends c.reply.result c.reply.rest := by
  obtain ⟨result, rest, h⟩ := c.exists_ends
  obtain ⟨rfl, rfl⟩ := Prod.mk.inj (c.gives_script.symm.trans h.run_eq)
  exact h

theorem left_reply (c : Call) : c.Left (c.reply.result.isOk && c.routine.takes) c.reply.rest :=
  c.ends_reply.left c.descends_script

theorem left_of_reads {c : Call} {a : c.routine.Tree} {rest : List Lexeme} (h : c.reply.Reads a rest) :
    c.Left c.routine.takes rest := by
  have hleft := c.left_reply
  rw [h.1, h.2] at hleft
  exact hleft

end Call

/-! ## Calls within calls -/

/-- The calls that are made while a script is followed. -/
inductive Script.Calls {α : Type} : Script α → Call → Prop
  | first (c : Call) (next : c.routine.Tree → List Lexeme → Script α) : Calls (.call c next) c
  | later {c c' : Call} {next : c.routine.Tree → List Lexeme → Script α} {a : c.routine.Tree} {mid : List Lexeme} :
      c.reply.Reads a mid → Calls (next a mid) c' → Calls (.call c next) c'

theorem Script.Calls.below_of_descends {α : Type} {s : Script α} {c c' : Call} (h : s.Calls c') (hs : s.Descends c) :
    c'.Below c := by
  induction h with
  | first c' next => exact hs.1
  | later hreads _ ih => exact ih (hs.2 _ _ (Call.left_of_reads hreads))

namespace Call

/-- The body of `c` calls `c'`. -/
def Makes (c c' : Call) : Prop := c.script.Calls c'

theorem Makes.below {c c' : Call} (h : c.Makes c') : c'.Below c :=
  Script.Calls.below_of_descends h c.descends_script

theorem Below.trans {c c' c'' : Call} (h : c''.Below c') (h' : c'.Below c) : c''.Below c := by
  obtain ⟨hsuffix, hfewer⟩ := h
  obtain ⟨hsuffix', hfewer'⟩ := h'
  have hle := hsuffix.length_le
  have hle' := hsuffix'.length_le
  exact ⟨hsuffix.trans hsuffix', by omega⟩

/-- A call that is made while `c` has not ended. -/
theorem below_of_transGen {c c' : Call} (h : Relation.TransGen Makes c c') : c'.Below c := by
  induction h with
  | single h => exact h.below
  | tail _ h ih => exact h.below.trans ih

end Call

/-! ## Empty readings -/

section

variable {β : Type} {ts rest : List Lexeme}

/-- A loop or a part that may be missing takes a token or leaves all of them, as the next one decides. -/
theorem reads_onNext_is? {kind : Token.Kind} (hkind : kind ≠ .endOfInput) {a b : β}
    {next : Unit → Nat → (rest : List Lexeme) → rest.length < ts.length → Reply β rest.length}
    (h : (onNext (Token.is? kind) ts next (done a ts)).Reads b rest) :
    peek ts = kind ∧ rest.length < ts.length ∨ peek ts ≠ kind ∧ b = a ∧ rest = ts := by
  rcases reads_onNext.mp h with ⟨t, tail, u, hlt, rfl, ht, hnext⟩ | ⟨hstops, hdone⟩
  · exact .inl ⟨is?_eq_some.mp ht, Nat.lt_of_le_of_lt hnext.length_le hlt⟩
  · refine .inr ⟨?_, reads_done.mp hdone⟩
    cases ts with
    | nil => exact hkind.symm
    | cons t tail =>
      intro hpeek
      cases (is?_of_kind hpeek).symm.trans (hstops t tail rfl)

/-- A statement takes a token unless it is the empty one. -/
theorem takes_or_skip {s : Statement} (h : (statement ts).Reads s rest) :
    (peek ts = .keyword .beginBlock ∨ peek ts = .identifier) ∧ rest.length < ts.length ∧ s ≠ .skip ∨
      (peek ts ≠ .keyword .beginBlock ∧ peek ts ≠ .identifier) ∧ rest = ts ∧ s = .skip := by
  rw [statement] at h
  split at h
  next hbegin =>
    obtain ⟨children, hchildren, rfl⟩ := reads_map.mp h
    have hleft := Call.left_of_reads (c := ⟨.compound, (), ts⟩) hchildren
    exact .inl ⟨.inl hbegin, hleft.2 rfl, fun h => by cases h⟩
  next hname =>
    have hleft := Call.left_of_reads (c := ⟨.assignment, (), ts⟩) h
    simp only [assignment, reads_identifier, reads_expect, reads_map] at h
    obtain ⟨_, _, _, _, _, _, _, _, _, _, _, _, _, rfl⟩ := h
    exact .inl ⟨.inr hname, hleft.2 rfl, fun h => by cases h⟩
  next hbegin hname =>
    obtain ⟨rfl, rfl⟩ := reads_done.mp h
    exact .inr ⟨⟨hbegin, hname⟩, rfl, rfl⟩

/-- A list of statements is empty in front of a token that begins no statement and separates none. -/
theorem exists_reads_statements_self (ts : List Lexeme) :
    (∃ ss, (statements ts).Reads ss ts) ↔
      peek ts ≠ .keyword .beginBlock ∧ peek ts ≠ .identifier ∧ peek ts ≠ .mark .semicolon := by
  rw [statements]
  constructor
  · rintro ⟨ss, h⟩
    obtain ⟨first, mid, hle, hfirst, hothers⟩ := reads_andThen.mp h
    rcases takes_or_skip hfirst with ⟨-, hlt, -⟩ | ⟨hpeek, rfl, rfl⟩
    · exact absurd hothers.length_le (Nat.not_le_of_lt hlt)
    · rcases reads_onNext_is? (by decide) hothers with ⟨-, hlt⟩ | ⟨hsemicolon, -, -⟩
      · exact absurd hlt (Nat.lt_irrefl _)
      · exact ⟨hpeek.1, hpeek.2, hsemicolon⟩
  · rintro ⟨hbegin, hname, hsemicolon⟩
    have hfirst : (statement ts).Reads .skip ts := by
      rw [statement]
      split
      next h => exact absurd h hbegin
      next h => exact absurd h hname
      next => exact reads_done_self _ _
    refine ⟨[.skip], hfirst.andThen ?_⟩
    rw [onNext_of_stops (stops_of_peek hsemicolon)]
    exact reads_done_self _ _

theorem exists_reads_declarations_self (ts : List Lexeme) :
    (∃ decls, (declarations ts).Reads decls ts) ↔ peek ts ≠ .keyword .var ∧ peek ts ≠ .keyword .procedure := by
  rw [declarations]
  constructor
  · rintro ⟨decls, h⟩
    obtain ⟨vars, mid, hle, hvars, hprocedures⟩ := reads_andThen.mp h
    obtain ⟨others, hothers, -⟩ := reads_map.mp hprocedures
    rcases reads_onNext_is? (by decide) hvars with ⟨-, hlt⟩ | ⟨hvar, rfl, rfl⟩
    · exact absurd hothers.length_le (Nat.not_le_of_lt hlt)
    · refine ⟨hvar, fun hprocedure => ?_⟩
      rw [procedures_eq, if_pos hprocedure] at hothers
      obtain ⟨first, mid, hle, hfirst, hothers⟩ := reads_andThen.mp hothers
      exact absurd hothers.length_le (Nat.not_le_of_lt (Taking.length_lt_of_reads hfirst))
  · rintro ⟨hvar, hprocedure⟩
    have hvars : (variableSection ts).Reads [] ts := by
      rw [variableSection, onNext_of_stops (stops_of_peek hvar)]
      exact reads_done_self _ _
    have hothers : (procedures ts).Reads [] ts := by
      rw [procedures_eq, if_neg hprocedure]
      exact reads_done_self _ _
    exact ⟨_, hvars.andThen (hothers.map _)⟩

end

/-- **Rules end and only move forward.** Every call ends with its reply and leaves an end of its tokens, and a success
takes at least one token, but for a statement, which takes none exactly when it is the empty one, for a list of
statements and for declarations. When a routine is called while an earlier call of it has not ended, at least one token
has been taken in between; this holds of the loops too, whose turns are calls of their own. -/
theorem rules_advance :
    (∀ c : Call, c.script.Ends c.reply.result c.reply.rest ∧ c.reply.rest <:+ c.tokens ∧
      ∀ tree, c.reply.result = .ok tree → c.routine.takes = true → c.reply.rest.length < c.tokens.length) ∧
    (∀ ts s rest, (statement ts).Reads s rest → (rest = ts ↔ s = .skip)) ∧
    (∀ ts, (∃ ss, (statements ts).Reads ss ts) ↔
      peek ts ≠ .keyword .beginBlock ∧ peek ts ≠ .identifier ∧ peek ts ≠ .mark .semicolon) ∧
    (∀ ts, (∃ decls, (declarations ts).Reads decls ts) ↔
      peek ts ≠ .keyword .var ∧ peek ts ≠ .keyword .procedure) ∧
    (∀ c c' : Call, Relation.TransGen Call.Makes c c' → c'.tokens <:+ c.tokens ∧
      (c'.routine = c.routine → c'.tokens.length < c.tokens.length)) ∧
    WellFounded fun c' c : Call => c.Makes c' := by
  refine ⟨fun c => ⟨c.ends_reply, c.left_reply.1, fun tree htree htakes => ?_⟩, fun ts s rest h => ?_,
    exists_reads_statements_self, exists_reads_declarations_self, fun c c' h => ?_,
    Subrelation.wf Call.Makes.below Call.wellFounded_below⟩
  · exact (Call.left_of_reads ⟨htree, rfl⟩).2 htakes
  · rcases takes_or_skip h with ⟨-, hlt, hne⟩ | ⟨-, hrest, hskip⟩
    · exact iff_of_false (fun heq => Nat.lt_irrefl _ (heq ▸ hlt)) hne
    · exact iff_of_true hrest hskip
  · obtain ⟨hsuffix, hfewer⟩ := Call.below_of_transGen h
    refine ⟨hsuffix, fun hsame => hfewer.resolve_right ?_⟩
    rw [hsame]
    exact Nat.lt_irrefl _

/-- A block of two empty statements: the loop takes a turn for the second one, behind the semicolon. -/
theorem rules_advance_emptyStatements :
    let opening : Lexeme := ⟨.keyword .beginBlock, ⟨0, 1, 1⟩, 5⟩
    let semicolon : Lexeme := ⟨.mark .semicolon, ⟨6, 1, 7⟩, 7⟩
    let closing : Lexeme := ⟨.keyword .endBlock, ⟨8, 1, 9⟩, 11⟩
    let outer : Call := ⟨.statements, (), [semicolon, closing]⟩
    let inner : Call := ⟨.statements, (), [closing]⟩
    ((compound [opening, semicolon, closing]).result = .ok [.skip, .skip] ∧
      (compound [opening, semicolon, closing]).rest.length < 3) ∧
    ((statement [closing]).result = .ok .skip ∧ (statement [closing]).rest = [closing]) ∧
    Relation.TransGen Call.Makes outer inner ∧ inner.tokens.length < outer.tokens.length := by
  intro opening semicolon closing outer inner
  obtain ⟨hcalls, hstatement, -, -, hchains, -⟩ := rules_advance
  have hcompound : (compound [opening, semicolon, closing]).result = .ok [.skip, .skip] := by cbv
  have hskip : (statement [closing]).result = .ok .skip := by cbv
  have hfirst : (statement [semicolon, closing]).Reads .skip [semicolon, closing] := by
    rw [statement]
    exact reads_done_self _ _
  have hturn : Relation.TransGen Call.Makes outer inner :=
    .single (.later (c := ⟨.statement, (), [semicolon, closing]⟩) hfirst (.first _ _))
  refine ⟨⟨hcompound, ?_⟩, ⟨hskip, ?_⟩, hturn, (hchains _ _ hturn).2 rfl⟩
  · exact (hcalls ⟨.compound, (), [opening, semicolon, closing]⟩).2.2 _ hcompound rfl
  · exact (hstatement _ _ _ ⟨hskip, rfl⟩).mpr rfl

end MiniPascal.Parser
