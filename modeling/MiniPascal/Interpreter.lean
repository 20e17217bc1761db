import MiniPascal.Analysis
import MiniPascal.Evaluation
import MiniPascal.Syntax.Parser
import MiniPascal.Token.Lexer

/-!
# From source text to values

A source is read as tokens, the tokens as a tree, the names of the tree are checked, and the tree is evaluated. The
first stage that fails ends the run.
-/

namespace MiniPascal

/-- Why a source has no value: the fault of the first stage that fails. -/
inductive Fault where
  | lexical (e : LexicalError)
  | syntactic (e : SyntaxError)
  | semantic (e : SemanticError)
  | runtime (e : RuntimeError)
  deriving DecidableEq

namespace Fault

def category : Fault → String
  | lexical _ => "LexError"
  | syntactic _ => "ParseError"
  | semantic _ => "SemanticError"
  | runtime _ => "RuntimeError"

def detail : Fault → String
  | lexical e => e.message
  | syntactic e => e.message
  | semantic e => e.message
  | runtime e => e.message

def message (fault : Fault) : String := fault.category ++ ": " ++ fault.detail

end Fault

/-- What a program leaves behind: the value assigned last, if any, and its variables. -/
structure Report where
  result : Option Value
  store : Store
  deriving DecidableEq

namespace Interpreter

/-- A run with the faults of all stages. -/
abbrev Run := Traced Unit Fault

def readTokens (source : String) : Run (List Lexeme) := .ofExcept ((tokenize source).mapError .lexical)

/-- A program from its tokens on. -/
def programOf (tokens : List Lexeme) : Run Report := do
  Traced.emit (.lexed tokens.length)
  let tree ← Traced.ofExcept ((parseProgram tokens).mapError .syntactic)
  Traced.emit (.parsed tree.name tree.block.declarations.length)
  let _ ← (Analysis.checkProgram tree).inside Analysis.start .semantic
  let (result, context) ← (Evaluation.runProgram tree).inside (.ofStore .empty) .runtime
  return ⟨result, context.store⟩

/-- Runs a program. -/
def program (source : String) : Run Report := readTokens source >>= programOf

/-- An expression from its tokens on, with no variables to read. -/
def expressionOf (tokens : List Lexeme) : Run Value := do
  let tree ← Traced.ofExcept ((parseExpression tokens).mapError .syntactic)
  let _ ← (Analysis.checkExpr tree).inside Analysis.start .semantic
  Traced.ofExcept (((Context.ofStore .empty).eval tree).mapError .runtime)

/-- Evaluates an expression. -/
def expression (source : String) : Run Value := readTokens source >>= expressionOf

end Interpreter

/-- The report of a program, or its first fault. -/
def runProgram (source : String) : Except Fault Report := (Interpreter.program source ()).result

/-- The value of an expression, or its first fault. -/
def evaluateExpression (source : String) : Except Fault Value := (Interpreter.expression source ()).result

end MiniPascal
