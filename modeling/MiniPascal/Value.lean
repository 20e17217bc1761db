import MiniPascal.Double.Decimal
import MiniPascal.Integer

/-!
# Values

What an expression stands for and a variable holds: an integer or a real. The kind of a value is its own; nothing turns
a real into an integer.
-/

namespace MiniPascal

inductive Value where
  | integer (n : Integer)
  | real (x : Double)
  deriving DecidableEq

namespace Value

/-- The value as a real, an integer becoming the nearest one. -/
def toReal : Value → Double
  | integer n => Double.ofInt n.toInt
  | real x => x

def text : Value → String
  | integer n => n.text
  | real x => x.text

/-- Equality of numbers of one kind: an integer never equals a real, NaN equals nothing, and zeros of either sign are
equal. -/
def sameNumber : Value → Value → Bool
  | integer n, integer m => n == m
  | real x, real y => x == y
  | _, _ => false

end Value

end MiniPascal
