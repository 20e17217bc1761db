import MiniPascal.Syntax.Basic
import MiniPascal.Token.Basic

/-!
# Reading trees from tokens

Recursive descent with one token of lookahead. A rule takes tokens off the front of a list and says what it read or what
it missed; either way it hands back the tokens that are left (`Parser.Reply`), and a token that was only looked at is
left. Every rule reads on, and no rule reaches itself again, before a token has been taken: this is why the rules end.
-/

namespace MiniPascal

/-! ## Faults -/

/-- What a rule would have accepted. -/
inductive Expected where
  | token (kind : Token.Kind)
  | expression
  | typeName
  deriving DecidableEq, Repr

def Expected.text : Expected → String
  | token kind => kind.text
  | expression => "an expression"
  | typeName => "a type ('integer' or 'real')"

/-- Why tokens make no tree. The end of a list is found as the end of input, on line 0 and column 0. -/
inductive SyntaxError where
  | unexpectedToken (expected : Expected) (found : Token) (line column : Nat)
  | trailingTokens (found : Token) (line column : Nat)
  deriving DecidableEq

namespace SyntaxError

def line : SyntaxError → Nat
  | unexpectedToken _ _ line _ => line
  | trailingTokens _ line _ => line

def column : SyntaxError → Nat
  | unexpectedToken _ _ _ column => column
  | trailingTokens _ _ column => column

def text : SyntaxError → String
  | unexpectedToken expected found _ _ => "Expected " ++ expected.text ++ ", found " ++ found.describe ++ "."
  | trailingTokens found _ _ => "Extra tokens after the end of input, starting with " ++ found.describe ++ "."

def message (e : SyntaxError) : String :=
  let line := e.line
  let column := e.column
  s!"Error on line {line}, column {column}: " ++ e.text

end SyntaxError

/-! ## What a token can begin -/

namespace Token

def is? (kind : Kind) (t : Token) : Option Unit := if t.kind = kind then some () else none

def name? : Token → Option String
  | identifier name => some name
  | _ => none

def value? : Token → Option Value
  | integer n => some (.integer n)
  | real x => some (.real x)
  | _ => none

def sign? : Token → Option UnaryOperator
  | mark .plus => some .plus
  | mark .minus => some .minus
  | _ => none

def additive? : Token → Option BinaryOperator
  | mark .plus => some .add
  | mark .minus => some .subtract
  | _ => none

def multiplicative? : Token → Option BinaryOperator
  | mark .star => some .multiply
  | keyword .div => some .quotient
  | mark .slash => some .divide
  | _ => none

def typeName? : Token → Option TypeName
  | keyword .integer => some .integer
  | keyword .real => some .real
  | _ => none

end Token

namespace Parser

/-- The kind of the first token, the end of input if there is none. -/
def peek : List Lexeme → Token.Kind
  | [] => .endOfInput
  | t :: _ => t.kind

/-! ## Replies -/

/-- The reply of a rule to `n` tokens, of which it never leaves more than `n`. -/
structure Reply (α : Type) (n : Nat) where
  result : Except SyntaxError α
  rest : List Lexeme
  length_le : rest.length ≤ n

section Replies

variable {α β : Type} {n : Nat}

def done (a : α) (ts : List Lexeme) : Reply α ts.length := ⟨.ok a, ts, Nat.le_refl _⟩

/-- Blames the first token. -/
def unexpected (expected : Expected) (ts : List Lexeme) : Reply α ts.length :=
  match ts with
  | [] => ⟨.error (.unexpectedToken expected .endOfInput 0 0), [], Nat.le_refl _⟩
  | t :: rest => ⟨.error (.unexpectedToken expected t.token t.line t.column), t :: rest, Nat.le_refl _⟩

def Reply.map (f : α → β) (reply : Reply α n) : Reply β n :=
  ⟨reply.result.map f, reply.rest, reply.length_le⟩

def Reply.weaken {m : Nat} (reply : Reply α m) (h : m ≤ n) : Reply α n :=
  ⟨reply.result, reply.rest, Nat.le_trans reply.length_le h⟩

/-- Goes on with what is left after a success. -/
def Reply.andThen (reply : Reply α n)
    (next : α → (rest : List Lexeme) → rest.length ≤ n → Reply β rest.length) : Reply β n :=
  match reply with
  | ⟨.ok a, rest, h⟩ => (next a rest h).weaken h
  | ⟨.error e, rest, h⟩ => ⟨.error e, rest, h⟩

/-- Takes the first token if it is chosen, and goes on with its line and the tokens behind it. -/
def onNext (choose : Token → Option α) (ts : List Lexeme)
    (next : α → Nat → (rest : List Lexeme) → rest.length < ts.length → Reply β rest.length)
    (otherwise : Reply β ts.length) : Reply β ts.length :=
  match ts, next, otherwise with
  | [], _, otherwise => otherwise
  | t :: rest, next, otherwise =>
    match choose t.token with
    | some a => (next a t.line rest (Nat.lt_succ_self _)).weaken (Nat.le_succ _)
    | none => otherwise

/-- Takes the first token, which has to be chosen. -/
def accept (expected : Expected) (choose : Token → Option α) (ts : List Lexeme)
    (next : α → Nat → (rest : List Lexeme) → rest.length < ts.length → Reply β rest.length) : Reply β ts.length :=
  onNext choose ts next (unexpected expected ts)

def expect (kind : Token.Kind) (ts : List Lexeme)
    (next : Nat → (rest : List Lexeme) → rest.length < ts.length → Reply β rest.length) : Reply β ts.length :=
  accept (.token kind) (Token.is? kind) ts fun _ => next

def identifier (ts : List Lexeme)
    (next : String → Nat → (rest : List Lexeme) → rest.length < ts.length → Reply β rest.length) :
    Reply β ts.length :=
  accept (.token .identifier) Token.name? ts next

@[simp] theorem result_done (a : α) (ts : List Lexeme) : (done a ts).result = .ok a := rfl

@[simp] theorem rest_done (a : α) (ts : List Lexeme) : (done a ts).rest = ts := rfl

@[simp] theorem rest_unexpected (expected : Expected) (ts : List Lexeme) :
    (unexpected expected ts : Reply α ts.length).rest = ts := by
  cases ts <;> rfl

namespace Reply

@[simp] theorem result_map (f : α → β) (reply : Reply α n) : (reply.map f).result = reply.result.map f := rfl

@[simp] theorem rest_map (f : α → β) (reply : Reply α n) : (reply.map f).rest = reply.rest := rfl

@[simp] theorem result_weaken {m : Nat} (reply : Reply α m) (h : m ≤ n) :
    (reply.weaken h).result = reply.result := rfl

@[simp] theorem rest_weaken {m : Nat} (reply : Reply α m) (h : m ≤ n) : (reply.weaken h).rest = reply.rest := rfl

theorem andThen_of_ok {reply : Reply α n} {a : α} (h : reply.result = .ok a)
    (next : α → (rest : List Lexeme) → rest.length ≤ n → Reply β rest.length) :
    reply.andThen next = (next a reply.rest reply.length_le).weaken reply.length_le := by
  obtain ⟨result, rest, hle⟩ := reply
  subst h
  rfl

theorem andThen_of_error {reply : Reply α n} {e : SyntaxError} (h : reply.result = .error e)
    (next : α → (rest : List Lexeme) → rest.length ≤ n → Reply β rest.length) :
    reply.andThen next = ⟨.error e, reply.rest, reply.length_le⟩ := by
  obtain ⟨result, rest, hle⟩ := reply
  subst h
  rfl

end Reply

theorem onNext_of_some {choose : Token → Option α} {t : Lexeme} {rest : List Lexeme} {a : α}
    (h : choose t.token = some a)
    (next : α → Nat → (rest' : List Lexeme) → rest'.length < (t :: rest).length → Reply β rest'.length)
    (otherwise : Reply β (t :: rest).length) :
    onNext choose (t :: rest) next otherwise =
      (next a t.line rest (Nat.lt_succ_self _)).weaken (Nat.le_succ _) := by
  simp only [onNext, h]

theorem onNext_of_none {choose : Token → Option α} {t : Lexeme} {rest : List Lexeme}
    (h : choose t.token = none)
    (next : α → Nat → (rest' : List Lexeme) → rest'.length < (t :: rest).length → Reply β rest'.length)
    (otherwise : Reply β (t :: rest).length) :
    onNext choose (t :: rest) next otherwise = otherwise := by
  simp only [onNext, h]

/-! ### Replies that took a token -/

/-- The reply of a rule that takes at least one token when it succeeds. -/
structure Taking (α : Type) (n : Nat) extends Reply α n where
  length_lt : ∀ a, result = .ok a → rest.length < n

theorem length_rest_expect_lt {kind : Token.Kind} {ts : List Lexeme}
    {next : Nat → (rest : List Lexeme) → rest.length < ts.length → Reply β rest.length} {b : β}
    (h : (expect kind ts next).result = .ok b) : (expect kind ts next).rest.length < ts.length := by
  unfold expect accept at h ⊢
  cases ts with
  | nil => cases h
  | cons t rest =>
    cases hkind : t.token.is? kind with
    | some u =>
      rw [onNext_of_some hkind]
      exact Nat.lt_succ_of_le (next t.line rest (Nat.lt_succ_self _)).length_le
    | none =>
      rw [onNext_of_none hkind] at h
      cases h

def Taking.expect (kind : Token.Kind) (ts : List Lexeme)
    (next : Nat → (rest : List Lexeme) → rest.length < ts.length → Reply β rest.length) : Taking β ts.length where
  toReply := Parser.expect kind ts next
  length_lt _ := length_rest_expect_lt

@[simp] theorem Taking.toReply_expect (kind : Token.Kind) (ts : List Lexeme)
    (next : Nat → (rest : List Lexeme) → rest.length < ts.length → Reply β rest.length) :
    (Taking.expect kind ts next).toReply = Parser.expect kind ts next := rfl

/-- Goes on with fewer tokens after a success. -/
def Taking.andThen (reply : Taking α n)
    (next : α → (rest : List Lexeme) → rest.length < n → Reply β rest.length) : Reply β n :=
  match reply with
  | ⟨⟨.ok a, rest, h⟩, hlt⟩ => (next a rest (hlt a rfl)).weaken h
  | ⟨⟨.error e, rest, h⟩, _⟩ => ⟨.error e, rest, h⟩

/-- It goes on as after any other reply if the proof that there are fewer tokens is not looked at. -/
theorem Taking.andThen_eq (reply : Taking α n) (next : α → (rest : List Lexeme) → Reply β rest.length) :
    (reply.andThen fun a rest _ => next a rest) = reply.toReply.andThen fun a rest _ => next a rest := by
  obtain ⟨⟨result, rest, h⟩, hlt⟩ := reply
  cases result <;> rfl

end Replies

/-! ## Expressions -/

mutual

/-- A sign before a factor, a constant, a variable, or an expression in parentheses. -/
def factor (ts : List Lexeme) : Reply Expr ts.length :=
  onNext Token.sign? ts (fun op line rest _ => (factor rest).map (.unary op · line)) <|
  onNext Token.value? ts (fun value line rest _ => done (.literal value line) rest) <|
  onNext Token.name? ts (fun name line rest _ => done (.variable name line) rest) <|
  onNext (Token.is? (.mark .leftParen)) ts (fun _ _ rest _ =>
    (expression rest).andThen fun e rest _ =>
    expect (.mark .rightParen) rest fun _ rest _ => done e rest) <|
  unexpected .expression ts
termination_by 4 * ts.length

/-- Factors joined by `*`, `div` and `/`, from left to right. -/
def multiplicative (ts : List Lexeme) : Reply Expr ts.length :=
  (factor ts).andThen fun left rest _ => multiplicativeRest left rest
termination_by 4 * ts.length + 1

def multiplicativeRest (left : Expr) (ts : List Lexeme) : Reply Expr ts.length :=
  onNext Token.multiplicative? ts (fun op line rest _ =>
    (factor rest).andThen fun right rest _ => multiplicativeRest (.binary op left right line) rest) <|
  done left ts
termination_by 4 * ts.length

/-- Products joined by `+` and `-`, from left to right. -/
def additive (ts : List Lexeme) : Reply Expr ts.length :=
  (multiplicative ts).andThen fun left rest _ => additiveRest left rest
termination_by 4 * ts.length + 2

def additiveRest (left : Expr) (ts : List Lexeme) : Reply Expr ts.length :=
  onNext Token.additive? ts (fun op line rest _ =>
    (multiplicative rest).andThen fun right rest _ => additiveRest (.binary op left right line) rest) <|
  done left ts
termination_by 4 * ts.length

def expression (ts : List Lexeme) : Reply Expr ts.length := additive ts
termination_by 4 * ts.length + 3

end

/-! ## Statements -/

def assignment (ts : List Lexeme) : Reply Statement ts.length :=
  identifier ts fun target targetLine rest _ =>
  expect (.mark .assign) rest fun line rest _ =>
  (expression rest).map (.assign target targetLine · line)

mutual

/-- Statements between `begin` and `end`. -/
def compound (ts : List Lexeme) : Reply (List Statement) ts.length :=
  expect (.keyword .beginBlock) ts fun _ rest _ =>
  (statements rest).andThen fun children rest _ =>
  expect (.keyword .endBlock) rest fun _ rest _ => done children rest
termination_by 3 * ts.length

/-- A compound or an assignment; where neither begins, the empty statement, which takes no token. -/
def statement (ts : List Lexeme) : Reply Statement ts.length :=
  match peek ts with
  | .keyword .beginBlock => (compound ts).map .compound
  | .identifier => assignment ts
  | _ => done .skip ts
termination_by 3 * ts.length + 1

/-- One statement or more, separated by semicolons. -/
def statements (ts : List Lexeme) : Reply (List Statement) ts.length :=
  (statement ts).andThen fun first rest _ =>
  onNext (Token.is? (.mark .semicolon)) rest (fun _ _ rest _ => (statements rest).map (first :: ·)) <|
  done [first] rest
termination_by 3 * ts.length + 2

end

/-! ## Declarations -/

/-- One name or more, separated by commas, with their lines. -/
def names (ts : List Lexeme) : Reply (List (String × Nat)) ts.length :=
  identifier ts fun name line rest _ =>
  onNext (Token.is? (.mark .comma)) rest (fun _ _ rest _ => (names rest).map ((name, line) :: ·)) <|
  done [(name, line)] rest
termination_by ts.length

/-- Names that share a type. -/
def typedNames (ts : List Lexeme) : Reply (List TypedName) ts.length :=
  (names ts).andThen fun ns rest _ =>
  expect (.mark .colon) rest fun _ rest _ =>
  accept .typeName Token.typeName? rest fun type line rest _ =>
  done (ns.map fun (name, nameLine) => ⟨name, ⟨type, line⟩, nameLine⟩) rest

/-- One group of variables or more, each closed by a semicolon; a name behind it begins the next. -/
def variableGroups (ts : List Lexeme) : Reply (List TypedName) ts.length :=
  (typedNames ts).andThen fun group rest _ =>
  expect (.mark .semicolon) rest fun _ rest _ =>
  if peek rest = .identifier then (variableGroups rest).map (group ++ ·)
  else done group rest
termination_by ts.length

def variableSection (ts : List Lexeme) : Reply (List TypedName) ts.length :=
  onNext (Token.is? (.keyword .var)) ts (fun _ _ rest _ => variableGroups rest) (done [] ts)

/-- One group of parameters or more, separated by semicolons. -/
def parameterGroups (ts : List Lexeme) : Reply (List TypedName) ts.length :=
  (typedNames ts).andThen fun group rest _ =>
  onNext (Token.is? (.mark .semicolon)) rest (fun _ _ rest _ => (parameterGroups rest).map (group ++ ·)) <|
  done group rest
termination_by ts.length

/-- Parameters in parentheses, or none. -/
def parameters (ts : List Lexeme) : Reply (List TypedName) ts.length :=
  onNext (Token.is? (.mark .leftParen)) ts (fun _ _ rest _ =>
    (parameterGroups rest).andThen fun group rest _ =>
    expect (.mark .rightParen) rest fun _ rest _ => done group rest) <|
  done [] ts

mutual

def procedures (ts : List Lexeme) : Reply (List Declaration) ts.length :=
  if peek ts = .keyword .procedure then
    (procedure ts).andThen fun first rest _ => (procedures rest).map (first :: ·)
  else done [] ts
termination_by 4 * ts.length + 1

def procedure (ts : List Lexeme) : Taking Declaration ts.length :=
  .expect (.keyword .procedure) ts fun line rest _ =>
  identifier rest fun name _ rest _ =>
  (parameters rest).andThen fun group rest _ =>
  expect (.mark .semicolon) rest fun _ rest _ =>
  (block rest).andThen fun body rest _ =>
  expect (.mark .semicolon) rest fun _ rest _ => done (.procedure name group body line) rest
termination_by 4 * ts.length

/-- Variables, then procedures; both may be missing. -/
def declarations (ts : List Lexeme) : Reply (List Declaration) ts.length :=
  (variableSection ts).andThen fun vars rest _ =>
  (procedures rest).map (vars.map .variable ++ ·)
termination_by 4 * ts.length + 2

def block (ts : List Lexeme) : Reply Block ts.length :=
  (declarations ts).andThen fun decls rest _ =>
  (compound rest).map (⟨decls, ·⟩)
termination_by 4 * ts.length + 3

end

theorem procedures_eq (ts : List Lexeme) :
    procedures ts =
      if peek ts = .keyword .procedure then
        (procedure ts).toReply.andThen fun first rest _ => (procedures rest).map (first :: ·)
      else done [] ts := by
  rw [procedures, Taking.andThen_eq]

/-! ## Whole inputs -/

def program (ts : List Lexeme) : Reply Program ts.length :=
  expect (.keyword .program) ts fun line rest _ =>
  identifier rest fun name _ rest _ =>
  expect (.mark .semicolon) rest fun _ rest _ =>
  (block rest).andThen fun body rest _ =>
  expect (.mark .dot) rest fun _ rest _ => done ⟨name, body, line⟩ rest

/-- What was read, if nothing but the end of input is left. -/
def Reply.toEnd {α : Type} {n : Nat} (reply : Reply α n) : Except SyntaxError α :=
  match reply.result, reply.rest with
  | .ok a, [] => .ok a
  | .ok a, t :: _ => if t.kind = .endOfInput then .ok a else .error (.trailingTokens t.token t.line t.column)
  | .error e, _ => .error e

end Parser

/-- The program that the tokens make up. -/
def parseProgram (ts : List Lexeme) : Except SyntaxError Program := (Parser.program ts).toEnd

/-- The expression that the tokens make up. -/
def parseExpression (ts : List Lexeme) : Except SyntaxError Expr := (Parser.expression ts).toEnd

end MiniPascal
