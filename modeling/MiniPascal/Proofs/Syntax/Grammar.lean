import MiniPascal.Syntax.Basic
import MiniPascal.Token.Basic

/-!
# The grammar

Which words, that is lists of tokens, are derived from a symbol of the grammar, and the tree of each derivation. There
is one relation for each symbol, with one constructor for each alternative of its production:

    program      := "program" ID ";" block "."
    block        := declarations compound
    declarations := ("var" (group ";")+)? procedure*
    procedure    := "procedure" ID ("(" group (";" group)* ")")? ";" block ";"
    group        := ID ("," ID)* ":" ("integer" | "real")
    compound     := "begin" statements "end"
    statements   := statement (";" statement)*
    statement    := compound | ID ":=" expression | empty
    expression   := term (("+" | "-") term)*
    term         := factor (("*" | "div" | "/") factor)*
    factor       := INTEGER | REAL | "(" expression ")" | ("+" | "-") factor | ID

Nothing here looks ahead or takes a longest match; only the tokens of the word itself count.
-/

namespace MiniPascal

/-! ## Spelling -/

def UnaryOperator.token : UnaryOperator → Token
  | plus => .mark .plus
  | minus => .mark .minus

def BinaryOperator.token : BinaryOperator → Token
  | add => .mark .plus
  | subtract => .mark .minus
  | multiply => .mark .star
  | quotient => .keyword .div
  | divide => .mark .slash

/-- Whether the operator joins terms rather than factors. -/
def BinaryOperator.isAdditive : BinaryOperator → Bool
  | add => true
  | subtract => true
  | _ => false

def Value.token : Value → Token
  | integer n => .integer n
  | real x => .real x

def TypeName.token : TypeName → Token
  | integer => .keyword .integer
  | real => .keyword .real

namespace Grammar

/-! ## Expressions -/

mutual

/-- A sign holds on to the factor behind it, and parentheses leave no node. -/
inductive FactorOf : List Lexeme → Expr → Prop
  | constant {t : Lexeme} {value : Value} : t.token = value.token → FactorOf [t] (.literal value t.line)
  | parentheses {t₁ t₂ : Lexeme} {w : List Lexeme} {e : Expr} : t₁.token = .mark .leftParen → ExpressionOf w e →
      t₂.token = .mark .rightParen → FactorOf (t₁ :: w ++ [t₂]) e
  | sign {t : Lexeme} {op : UnaryOperator} {w : List Lexeme} {e : Expr} : t.token = op.token → FactorOf w e →
      FactorOf (t :: w) (.unary op e t.line)
  | variable {t : Lexeme} {name : String} : t.token = .identifier name → FactorOf [t] (.variable name t.line)

/-- Chains of factors lean to the left. -/
inductive TermOf : List Lexeme → Expr → Prop
  | factor {w : List Lexeme} {e : Expr} : FactorOf w e → TermOf w e
  | chain {t : Lexeme} {op : BinaryOperator} {w v : List Lexeme} {left right : Expr} : TermOf w left →
      t.token = op.token → op.isAdditive = false → FactorOf v right →
      TermOf (w ++ t :: v) (.binary op left right t.line)

/-- Chains of terms lean to the left. -/
inductive ExpressionOf : List Lexeme → Expr → Prop
  | term {w : List Lexeme} {e : Expr} : TermOf w e → ExpressionOf w e
  | chain {t : Lexeme} {op : BinaryOperator} {w v : List Lexeme} {left right : Expr} : ExpressionOf w left →
      t.token = op.token → op.isAdditive = true → TermOf v right →
      ExpressionOf (w ++ t :: v) (.binary op left right t.line)

end

/-! ## Statements -/

mutual

inductive CompoundOf : List Lexeme → List Statement → Prop
  | mk {t₁ t₂ : Lexeme} {w : List Lexeme} {children : List Statement} : t₁.token = .keyword .beginBlock →
      StatementsOf w children → t₂.token = .keyword .endBlock → CompoundOf (t₁ :: w ++ [t₂]) children

inductive StatementOf : List Lexeme → Statement → Prop
  | compound {w : List Lexeme} {children : List Statement} : CompoundOf w children → StatementOf w (.compound children)
  | assignment {t₁ t₂ : Lexeme} {name : String} {w : List Lexeme} {value : Expr} : t₁.token = .identifier name →
      t₂.token = .mark .assign → ExpressionOf w value →
      StatementOf (t₁ :: t₂ :: w) (.assign name t₁.line value t₂.line)
  | empty : StatementOf [] .skip

inductive StatementsOf : List Lexeme → List Statement → Prop
  | last {w : List Lexeme} {s : Statement} : StatementOf w s → StatementsOf w [s]
  | more {t : Lexeme} {w v : List Lexeme} {s : Statement} {others : List Statement} : StatementOf w s →
      t.token = .mark .semicolon → StatementsOf v others → StatementsOf (w ++ t :: v) (s :: others)

end

/-! ## Declarations -/

/-- One name or more, each with its line. -/
inductive NamesOf : List Lexeme → List (String × Nat) → Prop
  | last {t : Lexeme} {name : String} : t.token = .identifier name → NamesOf [t] [(name, t.line)]
  | more {t₁ t₂ : Lexeme} {name : String} {w : List Lexeme} {others : List (String × Nat)} :
      t₁.token = .identifier name → t₂.token = .mark .comma → NamesOf w others →
      NamesOf (t₁ :: t₂ :: w) ((name, t₁.line) :: others)

/-- The names of a group share its type. -/
inductive GroupOf : List Lexeme → List TypedName → Prop
  | mk {t₁ t₂ : Lexeme} {w : List Lexeme} {names : List (String × Nat)} {type : TypeName} : NamesOf w names →
      t₁.token = .mark .colon → t₂.token = type.token →
      GroupOf (w ++ [t₁, t₂]) (names.map fun n => ⟨n.1, ⟨type, t₂.line⟩, n.2⟩)

/-- One group or more, each with a semicolon behind it. -/
inductive VariablesOf : List Lexeme → List TypedName → Prop
  | last {t : Lexeme} {w : List Lexeme} {group : List TypedName} : GroupOf w group → t.token = .mark .semicolon →
      VariablesOf (w ++ [t]) group
  | more {t : Lexeme} {w v : List Lexeme} {group others : List TypedName} : GroupOf w group →
      t.token = .mark .semicolon → VariablesOf v others → VariablesOf (w ++ t :: v) (group ++ others)

inductive VariableSectionOf : List Lexeme → List TypedName → Prop
  | none : VariableSectionOf [] []
  | some {t : Lexeme} {w : List Lexeme} {declared : List TypedName} : t.token = .keyword .var →
      VariablesOf w declared → VariableSectionOf (t :: w) declared

/-- One group or more, with semicolons between them. -/
inductive ParameterGroupsOf : List Lexeme → List TypedName → Prop
  | last {w : List Lexeme} {group : List TypedName} : GroupOf w group → ParameterGroupsOf w group
  | more {t : Lexeme} {w v : List Lexeme} {group others : List TypedName} : GroupOf w group →
      t.token = .mark .semicolon → ParameterGroupsOf v others → ParameterGroupsOf (w ++ t :: v) (group ++ others)

inductive ParametersOf : List Lexeme → List TypedName → Prop
  | none : ParametersOf [] []
  | some {t₁ t₂ : Lexeme} {w : List Lexeme} {declared : List TypedName} : t₁.token = .mark .leftParen →
      ParameterGroupsOf w declared → t₂.token = .mark .rightParen → ParametersOf (t₁ :: w ++ [t₂]) declared

mutual

/-- A procedure is blamed on the word that begins it. -/
inductive ProcedureOf : List Lexeme → Declaration → Prop
  | mk {t₁ t₂ t₃ t₄ : Lexeme} {name : String} {w v : List Lexeme} {parameters : List TypedName} {block : Block} :
      t₁.token = .keyword .procedure → t₂.token = .identifier name → ParametersOf w parameters →
      t₃.token = .mark .semicolon → BlockOf v block → t₄.token = .mark .semicolon →
      ProcedureOf (t₁ :: t₂ :: w ++ t₃ :: v ++ [t₄]) (.procedure name parameters block t₁.line)

inductive ProceduresOf : List Lexeme → List Declaration → Prop
  | none : ProceduresOf [] []
  | more {w v : List Lexeme} {first : Declaration} {others : List Declaration} : ProcedureOf w first →
      ProceduresOf v others → ProceduresOf (w ++ v) (first :: others)

/-- Variables come before procedures. -/
inductive DeclarationsOf : List Lexeme → List Declaration → Prop
  | mk {w v : List Lexeme} {declared : List TypedName} {procedures : List Declaration} :
      VariableSectionOf w declared → ProceduresOf v procedures →
      DeclarationsOf (w ++ v) (declared.map .variable ++ procedures)

inductive BlockOf : List Lexeme → Block → Prop
  | mk {w v : List Lexeme} {declarations : List Declaration} {body : List Statement} :
      DeclarationsOf w declarations → CompoundOf v body → BlockOf (w ++ v) ⟨declarations, body⟩

end

inductive ProgramOf : List Lexeme → Program → Prop
  | mk {t₁ t₂ t₃ t₄ : Lexeme} {name : String} {w : List Lexeme} {block : Block} : t₁.token = .keyword .program →
      t₂.token = .identifier name → t₃.token = .mark .semicolon → BlockOf w block → t₄.token = .mark .dot →
      ProgramOf (t₁ :: t₂ :: t₃ :: w ++ [t₄]) ⟨name, block, t₁.line⟩

end Grammar

end MiniPascal
