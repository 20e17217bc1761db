import MiniPascal.Syntax.Basic

/-!
# Arithmetic on values

Two integers give an integer, except under `/`; a real operand makes the operation real. Integer results that 64 bits do
not hold are faults, and so is every zero divisor; nothing else is: a real operation may give an infinity or NaN.
-/

namespace MiniPascal

/-- Why an evaluation stops, with the line that is blamed. -/
inductive RuntimeError where
  /-- A name that no declaration introduced. -/
  | unknownVariable (name : String) (line : Nat)
  /-- A declared name that holds no value yet. -/
  | unassignedVariable (name : String) (line : Nat)
  | divisionByZero (line : Nat)
  | overflow (line : Nat)
  deriving DecidableEq, Repr

def RuntimeError.message : RuntimeError → String
  | unknownVariable name line => s!"Error on line {line}: Unknown variable '{name}'."
  | unassignedVariable name line => s!"Error on line {line}: Variable '{name}' is read before it is assigned a value."
  | divisionByZero line => s!"Error on line {line}: Division by zero."
  | overflow line => s!"Error on line {line}: Integer overflow while trying to compute result."

namespace Arithmetic

/-- The exact result if 64 bits hold it, an overflow otherwise. -/
def checked (n : Int) (line : Nat) : Except RuntimeError Value :=
  match Integer.ofInt? n with
  | some i => .ok (.integer i)
  | none => .error (.overflow line)

def onReals (op : BinaryOperator) (x y : Double) (line : Nat) : Except RuntimeError Value :=
  match op with
  | .add => .ok (.real (x + y))
  | .subtract => .ok (.real (x - y))
  | .multiply => .ok (.real (x * y))
  | .quotient => if y.isZero then .error (.divisionByZero line) else .ok (.real (Double.truncate (x / y)))
  | .divide => if y.isZero then .error (.divisionByZero line) else .ok (.real (x / y))

def onIntegers (op : BinaryOperator) (n m : Integer) (line : Nat) : Except RuntimeError Value :=
  match op with
  | .add => checked (n.toInt + m.toInt) line
  | .subtract => checked (n.toInt - m.toInt) line
  | .multiply => checked (n.toInt * m.toInt) line
  | .quotient => if m.toInt = 0 then .error (.divisionByZero line) else checked (n.toInt.tdiv m.toInt) line
  | .divide => onReals .divide (Double.ofInt n.toInt) (Double.ofInt m.toInt) line

end Arithmetic

def BinaryOperator.apply (op : BinaryOperator) (left right : Value) (line : Nat) : Except RuntimeError Value :=
  match left, right with
  | .integer n, .integer m => Arithmetic.onIntegers op n m line
  | _, _ => Arithmetic.onReals op left.toReal right.toReal line

def UnaryOperator.apply (op : UnaryOperator) (value : Value) (line : Nat) : Except RuntimeError Value :=
  match op, value with
  | .plus, _ => .ok value
  | .minus, .integer n => Arithmetic.checked (-n.toInt) line
  | .minus, .real x => .ok (.real (-x))

end MiniPascal
