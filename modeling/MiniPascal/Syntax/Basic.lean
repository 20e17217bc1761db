import MiniPascal.Value

/-!
# Syntax trees

A tree keeps, with most of its nodes, the line of the token that the node is blamed on: an operation has the line of its
operator, an assignment that of its `:=`, a procedure that of the word `procedure`, and all other nodes that of their
name, constant or type. Parentheses leave no node.
-/

namespace MiniPascal

/-! ## Expressions -/

inductive UnaryOperator where
  | plus
  | minus
  deriving DecidableEq, Repr

inductive BinaryOperator where
  | add
  | subtract
  | multiply
  /-- The quotient without its fraction, written `div`. -/
  | quotient
  /-- The real quotient, written `/`. -/
  | divide
  deriving DecidableEq, Repr

inductive Expr where
  | literal (value : Value) (line : Nat)
  | variable (name : String) (line : Nat)
  | unary (op : UnaryOperator) (operand : Expr) (line : Nat)
  | binary (op : BinaryOperator) (left right : Expr) (line : Nat)
  deriving DecidableEq

/-! ## Statements -/

inductive Statement where
  | compound (children : List Statement)
  | assign (target : String) (targetLine : Nat) (value : Expr) (line : Nat)
  /-- The empty statement. -/
  | skip

/-! ## Declarations -/

inductive TypeName where
  | integer
  | real
  deriving DecidableEq, Repr

def TypeName.text : TypeName → String
  | integer => "integer"
  | real => "real"

structure TypeSpec where
  name : TypeName
  line : Nat
  deriving DecidableEq, Repr

/-- A variable or a parameter with its type. -/
structure TypedName where
  name : String
  type : TypeSpec
  line : Nat
  deriving DecidableEq, Repr

mutual

inductive Declaration where
  | variable (declared : TypedName)
  | procedure (name : String) (parameters : List TypedName) (block : Block) (line : Nat)

/-- Declarations and the statements between `begin` and `end`. -/
structure Block where
  declarations : List Declaration
  body : List Statement

end

structure Program where
  name : String
  block : Block
  line : Nat

end MiniPascal
