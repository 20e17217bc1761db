import MiniPascal.Proofs.Syntax.Reading

/-!
# What the rules call

The body of each routine of the parser is written as a script here, in which the calls of other routines are explicit
(`Call.script`). Besides calling, a script can look at its tokens and take the first one, and it ends in a tree or an
error. It is the body of the routine in so far as it gives the same reply when each call in it is answered by the
routine that is called.

* `Call.gives_script`: scripts and routines agree.
-/

namespace MiniPascal.Parser

/-! ## Routines -/

/-- The rules of the parser, its loops, and the parts of rules that may be missing. -/
inductive Routine where
  | token (kind : Token.Kind)
  | identifier
  | typeName
  | factor
  | multiplicative
  | multiplicativeRest
  | additive
  | additiveRest
  | expression
  | assignment
  | compound
  | statement
  | statements
  | names
  | typedNames
  | variableGroups
  | variableSection
  | parameterGroups
  | parameters
  | procedures
  | procedure
  | declarations
  | block
  | program
  deriving DecidableEq, Repr

namespace Routine

/-- What a routine reads. -/
abbrev Tree : Routine → Type
  | token _ => Nat
  | identifier => String × Nat
  | typeName => TypeSpec
  | factor | multiplicative | multiplicativeRest | additive | additiveRest | expression => Expr
  | assignment | statement => Statement
  | compound | statements => List Statement
  | names => List (String × Nat)
  | typedNames | variableGroups | variableSection | parameterGroups | parameters => List TypedName
  | procedure => Declaration
  | procedures | declarations => List Declaration
  | block => Block
  | program => Program

/-- What a routine is given besides tokens: the operand on the left. -/
abbrev Argument : Routine → Type
  | multiplicativeRest | additiveRest => Expr
  | _ => Unit

end Routine

structure Call where
  routine : Routine
  argument : routine.Argument
  tokens : List Lexeme

/-- The reply of the routine that is called. -/
def Call.reply : (c : Call) → Reply c.routine.Tree c.tokens.length
  | ⟨.token kind, _, ts⟩ => expect kind ts fun line rest _ => done line rest
  | ⟨.identifier, _, ts⟩ => Parser.identifier ts fun name line rest _ => done (name, line) rest
  | ⟨.typeName, _, ts⟩ => accept .typeName Token.typeName? ts fun type line rest _ => done ⟨type, line⟩ rest
  | ⟨.factor, _, ts⟩ => Parser.factor ts
  | ⟨.multiplicative, _, ts⟩ => Parser.multiplicative ts
  | ⟨.multiplicativeRest, left, ts⟩ => Parser.multiplicativeRest left ts
  | ⟨.additive, _, ts⟩ => Parser.additive ts
  | ⟨.additiveRest, left, ts⟩ => Parser.additiveRest left ts
  | ⟨.expression, _, ts⟩ => Parser.expression ts
  | ⟨.assignment, _, ts⟩ => Parser.assignment ts
  | ⟨.compound, _, ts⟩ => Parser.compound ts
  | ⟨.statement, _, ts⟩ => Parser.statement ts
  | ⟨.statements, _, ts⟩ => Parser.statements ts
  | ⟨.names, _, ts⟩ => Parser.names ts
  | ⟨.typedNames, _, ts⟩ => Parser.typedNames ts
  | ⟨.variableGroups, _, ts⟩ => Parser.variableGroups ts
  | ⟨.variableSection, _, ts⟩ => Parser.variableSection ts
  | ⟨.parameterGroups, _, ts⟩ => Parser.parameterGroups ts
  | ⟨.parameters, _, ts⟩ => Parser.parameters ts
  | ⟨.procedures, _, ts⟩ => Parser.procedures ts
  | ⟨.procedure, _, ts⟩ => (Parser.procedure ts).toReply
  | ⟨.declarations, _, ts⟩ => Parser.declarations ts
  | ⟨.block, _, ts⟩ => Parser.block ts
  | ⟨.program, _, ts⟩ => Parser.program ts

/-! ## Scripts -/

/-- What a routine does with its tokens. The failure of a call is that of the caller. -/
inductive Script (α : Type) where
  | done (a : α) (rest : List Lexeme)
  | fail (e : SyntaxError) (rest : List Lexeme)
  | call (c : Call) (next : c.routine.Tree → List Lexeme → Script α)

namespace Script

variable {α β : Type}

def unexpected (expected : Expected) (ts : List Lexeme) : Script α := .fail (blame expected ts) ts

/-- Takes the first token if it is chosen. -/
def onNext (choose : Token → Option α) (ts : List Lexeme) (next : α → Nat → List Lexeme → Script β)
    (otherwise : Script β) : Script β :=
  match ts with
  | [] => otherwise
  | t :: rest =>
    match choose t.token with
    | some a => next a t.line rest
    | none => otherwise

/-- Takes the first token, which has to be chosen. -/
def take (expected : Expected) (choose : Token → Option α) (pack : α → Nat → β) (ts : List Lexeme) : Script β :=
  onNext choose ts (fun a line rest => .done (pack a line) rest) (unexpected expected ts)

/-- What becomes of a script when its calls are answered by the routines. -/
def run : Script α → Except SyntaxError α × List Lexeme
  | done a rest => (.ok a, rest)
  | fail e rest => (.error e, rest)
  | call c next =>
    match c.reply.result with
    | .ok a => (next a c.reply.rest).run
    | .error e => (.error e, c.reply.rest)

end Script

/-- The body of the routine that is called. -/
def Call.script : (c : Call) → Script c.routine.Tree
  | ⟨.token kind, _, ts⟩ => .take (.token kind) (Token.is? kind) (fun _ line => line) ts
  | ⟨.identifier, _, ts⟩ => .take (.token .identifier) Token.name? (fun name line => (name, line)) ts
  | ⟨.typeName, _, ts⟩ => .take .typeName Token.typeName? (fun type line => ⟨type, line⟩) ts
  | ⟨.factor, _, ts⟩ =>
    .onNext Token.sign? ts (fun op line rest =>
      .call ⟨.factor, (), rest⟩ fun e rest => .done (.unary op e line) rest) <|
    .onNext Token.value? ts (fun value line rest => .done (.literal value line) rest) <|
    .onNext Token.name? ts (fun name line rest => .done (.variable name line) rest) <|
    .onNext (Token.is? (.mark .leftParen)) ts (fun _ _ rest =>
      .call ⟨.expression, (), rest⟩ fun e rest =>
      .call ⟨.token (.mark .rightParen), (), rest⟩ fun _ rest => .done e rest) <|
    .unexpected .expression ts
  | ⟨.multiplicative, _, ts⟩ =>
    .call ⟨.factor, (), ts⟩ fun left rest =>
    .call ⟨.multiplicativeRest, left, rest⟩ .done
  | ⟨.multiplicativeRest, left, ts⟩ =>
    .onNext Token.multiplicative? ts (fun op line rest =>
      .call ⟨.factor, (), rest⟩ fun right rest =>
      .call ⟨.multiplicativeRest, .binary op left right line, rest⟩ .done) <|
    .done left ts
  | ⟨.additive, _, ts⟩ =>
    .call ⟨.multiplicative, (), ts⟩ fun left rest =>
    .call ⟨.additiveRest, left, rest⟩ .done
  | ⟨.additiveRest, left, ts⟩ =>
    .onNext Token.additive? ts (fun op line rest =>
      .call ⟨.multiplicative, (), rest⟩ fun right rest =>
      .call ⟨.additiveRest, .binary op left right line, rest⟩ .done) <|
    .done left ts
  | ⟨.expression, _, ts⟩ => .call ⟨.additive, (), ts⟩ .done
  | ⟨.assignment, _, ts⟩ =>
    .call ⟨.identifier, (), ts⟩ fun target rest =>
    .call ⟨.token (.mark .assign), (), rest⟩ fun line rest =>
    .call ⟨.expression, (), rest⟩ fun value rest => .done (.assign target.1 target.2 value line) rest
  | ⟨.compound, _, ts⟩ =>
    .call ⟨.token (.keyword .beginBlock), (), ts⟩ fun _ rest =>
    .call ⟨.statements, (), rest⟩ fun children rest =>
    .call ⟨.token (.keyword .endBlock), (), rest⟩ fun _ rest => .done children rest
  | ⟨.statement, _, ts⟩ =>
    if peek ts = .keyword .beginBlock then
      .call ⟨.compound, (), ts⟩ fun children rest => .done (.compound children) rest
    else if peek ts = .identifier then .call ⟨.assignment, (), ts⟩ .done
    else .done .skip ts
  | ⟨.statements, _, ts⟩ =>
    .call ⟨.statement, (), ts⟩ fun first rest =>
    .onNext (Token.is? (.mark .semicolon)) rest (fun _ _ rest =>
      .call ⟨.statements, (), rest⟩ fun others rest => .done (first :: others) rest) <|
    .done [first] rest
  | ⟨.names, _, ts⟩ =>
    .call ⟨.identifier, (), ts⟩ fun first rest =>
    .onNext (Token.is? (.mark .comma)) rest (fun _ _ rest =>
      .call ⟨.names, (), rest⟩ fun others rest => .done (first :: others) rest) <|
    .done [first] rest
  | ⟨.typedNames, _, ts⟩ =>
    .call ⟨.names, (), ts⟩ fun ns rest =>
    .call ⟨.token (.mark .colon), (), rest⟩ fun _ rest =>
    .call ⟨.typeName, (), rest⟩ fun type rest =>
    .done (ns.map fun n => ⟨n.1, type, n.2⟩) rest
  | ⟨.variableGroups, _, ts⟩ =>
    .call ⟨.typedNames, (), ts⟩ fun group rest =>
    .call ⟨.token (.mark .semicolon), (), rest⟩ fun _ rest =>
    if peek rest = .identifier then
      .call ⟨.variableGroups, (), rest⟩ fun others rest => .done (group ++ others) rest
    else .done group rest
  | ⟨.variableSection, _, ts⟩ =>
    .onNext (Token.is? (.keyword .var)) ts (fun _ _ rest => .call ⟨.variableGroups, (), rest⟩ .done) (.done [] ts)
  | ⟨.parameterGroups, _, ts⟩ =>
    .call ⟨.typedNames, (), ts⟩ fun group rest =>
    .onNext (Token.is? (.mark .semicolon)) rest (fun _ _ rest =>
      .call ⟨.parameterGroups, (), rest⟩ fun others rest => .done (group ++ others) rest) <|
    .done group rest
  | ⟨.parameters, _, ts⟩ =>
    .onNext (Token.is? (.mark .leftParen)) ts (fun _ _ rest =>
      .call ⟨.parameterGroups, (), rest⟩ fun group rest =>
      .call ⟨.token (.mark .rightParen), (), rest⟩ fun _ rest => .done group rest) <|
    .done [] ts
  | ⟨.procedures, _, ts⟩ =>
    if peek ts = .keyword .procedure then
      .call ⟨.procedure, (), ts⟩ fun first rest =>
      .call ⟨.procedures, (), rest⟩ fun others rest => .done (first :: others) rest
    else .done [] ts
  | ⟨.procedure, _, ts⟩ =>
    .call ⟨.token (.keyword .procedure), (), ts⟩ fun line rest =>
    .call ⟨.identifier, (), rest⟩ fun name rest =>
    .call ⟨.parameters, (), rest⟩ fun group rest =>
    .call ⟨.token (.mark .semicolon), (), rest⟩ fun _ rest =>
    .call ⟨.block, (), rest⟩ fun body rest =>
    .call ⟨.token (.mark .semicolon), (), rest⟩ fun _ rest => .done (.procedure name.1 group body line) rest
  | ⟨.declarations, _, ts⟩ =>
    .call ⟨.variableSection, (), ts⟩ fun vars rest =>
    .call ⟨.procedures, (), rest⟩ fun others rest => .done (vars.map .variable ++ others) rest
  | ⟨.block, _, ts⟩ =>
    .call ⟨.declarations, (), ts⟩ fun decls rest =>
    .call ⟨.compound, (), rest⟩ fun children rest => .done ⟨decls, children⟩ rest
  | ⟨.program, _, ts⟩ =>
    .call ⟨.token (.keyword .program), (), ts⟩ fun line rest =>
    .call ⟨.identifier, (), rest⟩ fun name rest =>
    .call ⟨.token (.mark .semicolon), (), rest⟩ fun _ rest =>
    .call ⟨.block, (), rest⟩ fun body rest =>
    .call ⟨.token (.mark .dot), (), rest⟩ fun _ rest => .done ⟨name.1, body, line⟩ rest

/-! ## Scripts and replies -/

section

variable {α β : Type} {n : Nat}

/-- The script gives the reply. -/
def Script.Gives (s : Script α) (reply : Reply α n) : Prop := s.run = (reply.result, reply.rest)

theorem gives_done (a : α) (ts : List Lexeme) : (Script.done a ts).Gives (done a ts) := rfl

theorem gives_unexpected (expected : Expected) (ts : List Lexeme) :
    (Script.unexpected expected ts : Script α).Gives (unexpected expected ts) := by
  cases ts <;> rfl

theorem gives_onNext {choose : Token → Option α} {ts : List Lexeme} {next : α → Nat → List Lexeme → Script β}
    {next' : α → Nat → (rest : List Lexeme) → rest.length < ts.length → Reply β rest.length} {otherwise : Script β}
    {otherwise' : Reply β ts.length} (hnext : ∀ a line rest h, (next a line rest).Gives (next' a line rest h))
    (hotherwise : otherwise.Gives otherwise') :
    (Script.onNext choose ts next otherwise).Gives (onNext choose ts next' otherwise') := by
  cases ts with
  | nil => exact hotherwise
  | cons t rest =>
    cases h : choose t.token with
    | some a =>
      rw [onNext_of_some h, Script.onNext, h]
      exact hnext a t.line rest _
    | none =>
      rw [onNext_of_none h, Script.onNext, h]
      exact hotherwise

theorem gives_take (expected : Expected) (choose : Token → Option α) (pack : α → Nat → β) (ts : List Lexeme) :
    (Script.take expected choose pack ts).Gives
      (accept expected choose ts fun a line rest _ => done (pack a line) rest) :=
  gives_onNext (fun _ _ _ _ => gives_done _ _) (gives_unexpected _ _)

theorem gives_andThen (c : Call) {next : c.routine.Tree → List Lexeme → Script α}
    {next' : c.routine.Tree → (rest : List Lexeme) → rest.length ≤ c.tokens.length → Reply α rest.length}
    (hnext : ∀ a rest h, (next a rest).Gives (next' a rest h)) :
    (Script.call c next).Gives (c.reply.andThen next') := by
  unfold Script.Gives
  cases h : c.reply.result with
  | ok a =>
    rw [Reply.andThen_of_ok h, Script.run, h]
    exact hnext a c.reply.rest c.reply.length_le
  | error e => rw [Reply.andThen_of_error h, Script.run, h]

theorem gives_map (c : Call) (f : c.routine.Tree → α) :
    (Script.call c fun a rest => .done (f a) rest).Gives (c.reply.map f) := by
  unfold Script.Gives
  rw [Reply.result_map, Reply.rest_map, Script.run]
  cases c.reply.result <;> rfl

theorem gives_call (c : Call) : (Script.call c .done).Gives c.reply := by
  unfold Script.Gives
  rw [Script.run]
  cases c.reply.result <;> rfl

/-- A token that has to be there is read by a call of its own. -/
theorem gives_accept {c : Call} {expected : Expected} {choose : Token → Option α} {pack : α → Nat → c.routine.Tree}
    {next : c.routine.Tree → List Lexeme → Script β}
    {next' : α → Nat → (rest : List Lexeme) → rest.length < c.tokens.length → Reply β rest.length}
    (hc : c.reply = accept expected choose c.tokens fun a line rest _ => done (pack a line) rest)
    (hnext : ∀ a line rest h, (next (pack a line) rest).Gives (next' a line rest h)) :
    (Script.call c next).Gives (accept expected choose c.tokens next') := by
  unfold Script.Gives
  rw [Script.run, hc]
  obtain ⟨routine, argument, ts⟩ := c
  cases ts with
  | nil => rfl
  | cons t rest =>
    unfold accept
    cases h : choose t.token with
    | some a =>
      rw [onNext_of_some h, onNext_of_some h]
      exact hnext a t.line rest _
    | none =>
      rw [onNext_of_none h, onNext_of_none h]
      rfl

variable {ts : List Lexeme}

theorem gives_expect {kind : Token.Kind} {next : Nat → List Lexeme → Script β}
    {next' : Nat → (rest : List Lexeme) → rest.length < ts.length → Reply β rest.length}
    (hnext : ∀ line rest h, (next line rest).Gives (next' line rest h)) :
    (Script.call ⟨.token kind, (), ts⟩ next).Gives (expect kind ts next') :=
  gives_accept (c := ⟨.token kind, (), ts⟩) rfl fun _ => hnext

theorem gives_identifier {next : String × Nat → List Lexeme → Script β}
    {next' : String → Nat → (rest : List Lexeme) → rest.length < ts.length → Reply β rest.length}
    (hnext : ∀ name line rest h, (next (name, line) rest).Gives (next' name line rest h)) :
    (Script.call ⟨.identifier, (), ts⟩ next).Gives (identifier ts next') :=
  gives_accept (c := ⟨.identifier, (), ts⟩) rfl hnext

theorem gives_typeName {next : TypeSpec → List Lexeme → Script β}
    {next' : TypeName → Nat → (rest : List Lexeme) → rest.length < ts.length → Reply β rest.length}
    (hnext : ∀ type line rest h, (next ⟨type, line⟩ rest).Gives (next' type line rest h)) :
    (Script.call ⟨.typeName, (), ts⟩ next).Gives (accept .typeName Token.typeName? ts next') :=
  gives_accept (c := ⟨.typeName, (), ts⟩) rfl hnext

end

/-- The body of each routine replies what the routine replies. -/
theorem Call.gives_script (c : Call) : c.script.Gives c.reply := by
  obtain ⟨routine, argument, ts⟩ := c
  cases routine with
  | token kind => exact gives_take _ _ _ _
  | identifier => exact gives_take _ _ _ _
  | typeName => exact gives_take _ _ _ _
  | factor =>
    rw [Call.script, Call.reply, Parser.factor]
    refine gives_onNext (fun _ _ rest _ => gives_map ⟨.factor, (), rest⟩ _) ?_
    refine gives_onNext (fun _ _ _ _ => gives_done _ _) ?_
    refine gives_onNext (fun _ _ _ _ => gives_done _ _) ?_
    refine gives_onNext (fun _ _ rest _ => ?_) (gives_unexpected _ _)
    refine gives_andThen ⟨.expression, (), rest⟩ fun _ rest _ => ?_
    exact gives_expect fun _ _ _ => gives_done _ _
  | multiplicative =>
    rw [Call.script, Call.reply, Parser.multiplicative]
    exact gives_andThen ⟨.factor, (), ts⟩ fun left rest _ => gives_call ⟨.multiplicativeRest, left, rest⟩
  | multiplicativeRest =>
    rw [Call.script, Call.reply, Parser.multiplicativeRest]
    refine gives_onNext (fun _ _ rest _ => ?_) (gives_done _ _)
    exact gives_andThen ⟨.factor, (), rest⟩ fun _ rest _ => gives_call ⟨.multiplicativeRest, _, rest⟩
  | additive =>
    rw [Call.script, Call.reply, Parser.additive]
    exact gives_andThen ⟨.multiplicative, (), ts⟩ fun left rest _ => gives_call ⟨.additiveRest, left, rest⟩
  | additiveRest =>
    rw [Call.script, Call.reply, Parser.additiveRest]
    refine gives_onNext (fun _ _ rest _ => ?_) (gives_done _ _)
    exact gives_andThen ⟨.multiplicative, (), rest⟩ fun _ rest _ => gives_call ⟨.additiveRest, _, rest⟩
  | expression =>
    rw [Call.script, Call.reply, Parser.expression]
    exact gives_call ⟨.additive, (), ts⟩
  | assignment =>
    rw [Call.script, Call.reply, Parser.assignment]
    refine gives_identifier fun _ _ rest _ => ?_
    refine gives_expect fun _ rest _ => ?_
    exact gives_map ⟨.expression, (), rest⟩ _
  | compound =>
    rw [Call.script, Call.reply, Parser.compound]
    refine gives_expect fun _ rest _ => ?_
    refine gives_andThen ⟨.statements, (), rest⟩ fun _ rest _ => ?_
    exact gives_expect fun _ _ _ => gives_done _ _
  | statement =>
    rw [Call.script, Call.reply, Parser.statement]
    by_cases hbegin : peek ts = .keyword .beginBlock
    · rw [if_pos hbegin, hbegin]
      exact gives_map ⟨.compound, (), ts⟩ _
    by_cases hname : peek ts = .identifier
    · rw [if_neg hbegin, if_pos hname, hname]
      exact gives_call ⟨.assignment, (), ts⟩
    · rw [if_neg hbegin, if_neg hname]
      split
      next h => exact absurd h hbegin
      next h => exact absurd h hname
      next => exact gives_done _ _
  | statements =>
    rw [Call.script, Call.reply, Parser.statements]
    refine gives_andThen ⟨.statement, (), ts⟩ fun _ rest _ => ?_
    exact gives_onNext (fun _ _ rest _ => gives_map ⟨.statements, (), rest⟩ _) (gives_done _ _)
  | names =>
    rw [Call.script, Call.reply, Parser.names]
    refine gives_identifier fun _ _ rest _ => ?_
    exact gives_onNext (fun _ _ rest _ => gives_map ⟨.names, (), rest⟩ _) (gives_done _ _)
  | typedNames =>
    rw [Call.script, Call.reply, Parser.typedNames]
    refine gives_andThen ⟨.names, (), ts⟩ fun _ rest _ => ?_
    refine gives_expect fun _ rest _ => ?_
    exact gives_typeName fun _ _ _ _ => gives_done _ _
  | variableGroups =>
    rw [Call.script, Call.reply, Parser.variableGroups]
    refine gives_andThen ⟨.typedNames, (), ts⟩ fun _ rest _ => ?_
    refine gives_expect fun _ rest _ => ?_
    split
    · exact gives_map ⟨.variableGroups, (), rest⟩ _
    · exact gives_done _ _
  | variableSection =>
    rw [Call.script, Call.reply, Parser.variableSection]
    exact gives_onNext (fun _ _ rest _ => gives_call ⟨.variableGroups, (), rest⟩) (gives_done _ _)
  | parameterGroups =>
    rw [Call.script, Call.reply, Parser.parameterGroups]
    refine gives_andThen ⟨.typedNames, (), ts⟩ fun _ rest _ => ?_
    exact gives_onNext (fun _ _ rest _ => gives_map ⟨.parameterGroups, (), rest⟩ _) (gives_done _ _)
  | parameters =>
    rw [Call.script, Call.reply, Parser.parameters]
    refine gives_onNext (fun _ _ rest _ => ?_) (gives_done _ _)
    refine gives_andThen ⟨.parameterGroups, (), rest⟩ fun _ rest _ => ?_
    exact gives_expect fun _ _ _ => gives_done _ _
  | procedures =>
    rw [Call.script, Call.reply, Parser.procedures_eq]
    split
    · exact gives_andThen ⟨.procedure, (), ts⟩ fun _ rest _ => gives_map ⟨.procedures, (), rest⟩ _
    · exact gives_done _ _
  | procedure =>
    rw [Call.script, Call.reply, Parser.procedure, Taking.toReply_expect]
    refine gives_expect fun _ rest _ => ?_
    refine gives_identifier fun _ _ rest _ => ?_
    refine gives_andThen ⟨.parameters, (), rest⟩ fun _ rest _ => ?_
    refine gives_expect fun _ rest _ => ?_
    refine gives_andThen ⟨.block, (), rest⟩ fun _ rest _ => ?_
    exact gives_expect fun _ _ _ => gives_done _ _
  | declarations =>
    rw [Call.script, Call.reply, Parser.declarations]
    exact gives_andThen ⟨.variableSection, (), ts⟩ fun _ rest _ => gives_map ⟨.procedures, (), rest⟩ _
  | block =>
    rw [Call.script, Call.reply, Parser.block]
    exact gives_andThen ⟨.declarations, (), ts⟩ fun _ rest _ => gives_map ⟨.compound, (), rest⟩ _
  | program =>
    rw [Call.script, Call.reply, Parser.program]
    refine gives_expect fun _ rest _ => ?_
    refine gives_identifier fun _ _ rest _ => ?_
    refine gives_expect fun _ rest _ => ?_
    refine gives_andThen ⟨.block, (), rest⟩ fun _ rest _ => ?_
    exact gives_expect fun _ _ _ => gives_done _ _

end MiniPascal.Parser
