import MiniPascal.Syntax.Basic
import MiniPascal.Traced

/-!
# Analysis of names

A tree is walked in the order of its text, with the open scopes as the state. A declaration is checked against the scope
it stands in and is visible from there on; a procedure's parameters, variables and inner procedures share one scope, its
own name belongs to the scope around it. Every assigned and every read name has to be that of a variable. Declarations
made before a fault stay, but a procedure's scope is closed even if a fault lies inside it.
-/

namespace MiniPascal

/-- A walk over open scopes. -/
abbrev Analysis := Traced Scopes SemanticError

namespace Analysis

/-- The name of the outermost scope. -/
def globalName : String := "global"

/-- The scopes that an analysis starts with: the built-in types are declared. -/
def start : Scopes := .ofBuiltins globalName [.builtinType TypeName.integer.text, .builtinType TypeName.real.text]

/-! ## Names -/

def define (symbol : Symbol) (line : Nat) : Analysis Unit := fun scopes =>
  match scopes.define symbol line with
  | .ok extended => ⟨.ok (), extended, [.defined symbol scopes.current.name]⟩
  | .error e => ⟨.error e, scopes, []⟩

def lookup (name : String) : Analysis (Option Symbol) := fun scopes =>
  ⟨.ok (scopes.lookup name), scopes, (Scopes.searched name scopes.inward).map (.lookedUp name ·.name)⟩

def resolveType (type : TypeSpec) : Analysis String := do
  match (← lookup type.name.text).bind Symbol.type? with
  | some name => pure name
  | none => Traced.fail (.unknownType type.name.text type.line)

def resolveVariable (name : String) (line : Nat) : Analysis Unit := do
  match ← lookup name with
  | some (.variable _) => pure ()
  | some _ => Traced.fail (.notAVariable name line)
  | none => Traced.fail (.undeclaredIdentifier name line)

/-! ## Expressions and statements -/

def checkExpr : Expr → Analysis Unit
  | .literal _ _ => pure ()
  | .variable name line => resolveVariable name line
  | .unary _ operand _ => checkExpr operand
  | .binary _ left right _ => do
    checkExpr left
    checkExpr right

mutual

/-- The target of an assignment is resolved before its value. -/
def checkStatement : Statement → Analysis Unit
  | .compound children => checkStatements children
  | .assign target targetLine value _ => do
    resolveVariable target targetLine
    checkExpr value
  | .skip => pure ()

def checkStatements : List Statement → Analysis Unit
  | [] => pure ()
  | first :: others => do
    checkStatement first
    checkStatements others

end

/-! ## Declarations -/

/-- A variable's type is resolved before its name is declared. -/
def declareVariable (declared : TypedName) : Analysis Unit := do
  let type ← resolveType declared.type
  define (.variable ⟨declared.name, type⟩) declared.line

/-- Parameters with their lines, their types resolved in the scope around the procedure. -/
def resolveParameters : List TypedName → Analysis (List (VariableSymbol × Nat))
  | [] => pure []
  | first :: others => do
    let type ← resolveType first.type
    ((⟨first.name, type⟩, first.line) :: ·) <$> resolveParameters others

/-- Declares the parameters in the scope of their procedure. -/
def declareParameters : List (VariableSymbol × Nat) → Analysis Unit
  | [] => pure ()
  | (symbol, line) :: others => do
    define (.variable symbol) line
    declareParameters others

/-- Opens a scope for a walk and closes it however the walk ends. -/
def inScope {α : Type} (name : String) (walk : Analysis α) : Analysis α := do
  Traced.modify (·.enter name)
  Traced.emit (.entered name)
  walk.ensuring fun scopes =>
    match scopes.leave? with
    | some (closed, outer) => (outer, [.left closed])
    | none => (scopes, [])

mutual

def checkDeclaration : Declaration → Analysis Unit
  | .variable declared => declareVariable declared
  | .procedure name parameters ⟨declarations, body⟩ line => do
    let resolved ← resolveParameters parameters
    define (.procedure name (resolved.map Prod.fst)) line
    inScope name do
      declareParameters resolved
      checkDeclarations declarations
      checkStatements body

def checkDeclarations : List Declaration → Analysis Unit
  | [] => pure ()
  | first :: others => do
    checkDeclaration first
    checkDeclarations others

end

def checkBlock (block : Block) : Analysis Unit := do
  checkDeclarations block.declarations
  checkStatements block.body

/-- The outermost scope is reported as left only if the whole program is sound. -/
def checkProgram (program : Program) : Analysis Unit := do
  Traced.emit (.entered globalName)
  checkBlock program.block
  Traced.emit (.left (← Traced.get).current)

end Analysis

end MiniPascal
