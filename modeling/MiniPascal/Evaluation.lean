import MiniPascal.Arithmetic
import MiniPascal.Store
import MiniPascal.Traced

/-!
# Evaluation

Statements are executed over a context: the values of the variables, and the names that were declared as variables.
Declared types are not looked at and procedures are never run. Assignments made before a fault stay.
-/

namespace MiniPascal

structure Context where
  store : Store
  /-- The variables declared so far, which tells an unassigned name from an unknown one. -/
  declared : List String

namespace Context

def ofStore (store : Store) : Context := ⟨store, []⟩

def declare (context : Context) (name : String) : Context :=
  { context with declared := context.declared.insert name }

def assign (context : Context) (name : String) (value : Value) : Context :=
  { context with store := context.store.assign name value }

def read (context : Context) (name : String) (line : Nat) : Except RuntimeError Value :=
  match context.store.get? name with
  | some value => .ok value
  | none =>
    if name ∈ context.declared then .error (.unassignedVariable name line) else .error (.unknownVariable name line)

/-- The value of an expression; operands are evaluated from left to right. -/
def eval (context : Context) : Expr → Except RuntimeError Value
  | .literal value _ => .ok value
  | .variable name line => context.read name line
  | .unary op operand line => do
    let value ← context.eval operand
    op.apply value line
  | .binary op left right line => do
    let a ← context.eval left
    let b ← context.eval right
    op.apply a b line

end Context

/-- An execution over a context. -/
abbrev Evaluation := Traced Context RuntimeError

namespace Evaluation

/-- Gives a variable the value of an expression. -/
def assign (target : String) (value : Expr) : Evaluation Value := fun context =>
  match context.eval value with
  | .ok v => ⟨.ok v, context.assign target v, [.assigned target v]⟩
  | .error e => ⟨.error e, context, []⟩

mutual

/-- Executes a statement; the result is the value assigned last, if any. -/
def runStatement : Statement → Evaluation (Option Value)
  | .compound children => runStatements children
  | .assign target _ value _ => some <$> assign target value
  | .skip => pure none

def runStatements : List Statement → Evaluation (Option Value)
  | [] => pure none
  | first :: others => do
    let earlier ← runStatement first
    (·.or earlier) <$> runStatements others

end

def introduce : Declaration → Evaluation Unit
  | .variable declared => Traced.modify (·.declare declared.name)
  | .procedure name _ _ _ => Traced.emit (.skipped name)

def introduceAll : List Declaration → Evaluation Unit
  | [] => pure ()
  | first :: others => do
    introduce first
    introduceAll others

def runBlock (block : Block) : Evaluation (Option Value) := do
  introduceAll block.declarations
  runStatements block.body

def runProgram (program : Program) : Evaluation (Option Value) := do
  Traced.emit (.evaluating program.name)
  runBlock program.block

end Evaluation

end MiniPascal
