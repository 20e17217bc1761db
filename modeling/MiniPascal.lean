import MiniPascal.Analysis
import MiniPascal.Arithmetic
import MiniPascal.CommandLine
import MiniPascal.Double.Basic
import MiniPascal.Double.Decimal
import MiniPascal.Evaluation
import MiniPascal.Integer
import MiniPascal.Interpreter
import MiniPascal.Log
import MiniPascal.Main
import MiniPascal.Position
import MiniPascal.Proofs.Access
import MiniPascal.Proofs.Analysis.Calls
import MiniPascal.Proofs.Analysis.Histories
import MiniPascal.Proofs.Analysis.Lexical
import MiniPascal.Proofs.Analysis.Log
import MiniPascal.Proofs.Analysis.Scopes
import MiniPascal.Proofs.Blame
import MiniPascal.Proofs.DeclaredTypes
import MiniPascal.Proofs.Double.Bits
import MiniPascal.Proofs.Double.Decimal
import MiniPascal.Proofs.Embedding
import MiniPascal.Proofs.Evaluation.Assignments
import MiniPascal.Proofs.Evaluation.Faults
import MiniPascal.Proofs.Evaluation.Histories
import MiniPascal.Proofs.Evaluation.Integers
import MiniPascal.Proofs.Evaluation.Kinds
import MiniPascal.Proofs.Evaluation.Steps
import MiniPascal.Proofs.Interpreter
import MiniPascal.Proofs.Layout
import MiniPascal.Proofs.Position
import MiniPascal.Proofs.Renaming
import MiniPascal.Proofs.Rendering
import MiniPascal.Proofs.Soundness
import MiniPascal.Proofs.Store
import MiniPascal.Proofs.Syntax.Completeness
import MiniPascal.Proofs.Syntax.Completion
import MiniPascal.Proofs.Syntax.Descent
import MiniPascal.Proofs.Syntax.Failure
import MiniPascal.Proofs.Syntax.Grammar
import MiniPascal.Proofs.Syntax.Language
import MiniPascal.Proofs.Syntax.Layout
import MiniPascal.Proofs.Syntax.Lookahead
import MiniPascal.Proofs.Syntax.Places
import MiniPascal.Proofs.Syntax.Printer
import MiniPascal.Proofs.Syntax.Reading
import MiniPascal.Proofs.Syntax.Rules
import MiniPascal.Proofs.Syntax.Scripts
import MiniPascal.Proofs.Syntax.Soundness
import MiniPascal.Proofs.Token.Composition
import MiniPascal.Proofs.Token.LetterCase
import MiniPascal.Proofs.Token.LongestMatch
import MiniPascal.Proofs.Token.Patterns
import MiniPascal.Proofs.Token.Positions
import MiniPascal.Proofs.Token.Progress
import MiniPascal.Proofs.Token.Spans
import MiniPascal.Proofs.Token.Trivia
import MiniPascal.Proofs.Token.Words
import MiniPascal.Proofs.TypeNames
import MiniPascal.Proofs.UnusedDeclarations
import MiniPascal.Proofs.ValueText
import MiniPascal.Scope
import MiniPascal.Store
import MiniPascal.Symbol
import MiniPascal.Syntax.Basic
import MiniPascal.Syntax.Parser
import MiniPascal.Token.Basic
import MiniPascal.Token.Lexer
import MiniPascal.Traced
import MiniPascal.Value
