import MiniPascal.Symbol

/-!
# Scopes

A scope is a table of symbols in the order of their declaration. The scopes that are open at one point of a program form
a stack (`Scopes`) that is never empty: names are declared in the innermost scope and looked up from there outwards.
Levels and parents are recorded in every scope although they follow from its place in the stack, and a stack comes with
the proof that they do (`Scope.Chained`).

* `Scopes.define_eq_ok_iff`: a name is declared once in a scope.
* `Scopes.leave_enter`: leaving undoes entering.
-/

namespace MiniPascal

/-! ## Faults -/

/-- Why names do not make sense, with the line that is blamed. -/
inductive SemanticError where
  | duplicateIdentifier (name scope : String) (line : Nat)
  | unknownType (name : String) (line : Nat)
  | undeclaredIdentifier (name : String) (line : Nat)
  | notAVariable (name : String) (line : Nat)
  deriving DecidableEq, Repr

namespace SemanticError

def line : SemanticError → Nat
  | duplicateIdentifier _ _ line => line
  | unknownType _ line => line
  | undeclaredIdentifier _ line => line
  | notAVariable _ line => line

def text : SemanticError → String
  | duplicateIdentifier name scope _ => s!"Duplicate identifier '{name}' in scope '{scope}'."
  | unknownType name _ => s!"Unknown type '{name}'."
  | undeclaredIdentifier name _ => s!"Reference before assignment: '{name}' is not declared."
  | notAVariable name _ => s!"'{name}' is not a variable."

def message (e : SemanticError) : String :=
  let line := e.line
  s!"Error on line {line}: " ++ e.text

end SemanticError

/-! ## One scope -/

structure Scope where
  name : String
  /-- The outermost scope is on level 1. -/
  level : Nat
  /-- The index of the enclosing scope. -/
  parent : Option Nat
  symbols : List Symbol
  deriving DecidableEq, Repr

namespace Scope

def get? (scope : Scope) (name : String) : Option Symbol := scope.symbols.find? (·.name == name)

/-- Adds a symbol at the end, or puts it in the place of the one with its name. -/
def insert (scope : Scope) (symbol : Symbol) : Scope :=
  { scope with
    symbols :=
      if (scope.get? symbol.name).isSome then
        scope.symbols.map fun other => if other.name = symbol.name then symbol else other
      else scope.symbols ++ [symbol] }

/-- The index of the scope around the one with the given index. -/
def parentIndex? : Nat → Option Nat
  | 0 => none
  | index + 1 => some index

/-- The scope has recorded the level and the parent that go with its index. -/
structure InPlace (scope : Scope) (index : Nat) : Prop where
  level : scope.level = index + 1
  parent : scope.parent = parentIndex? index

/-- Scopes from the inside out, each of them in its place. -/
def Chained : List Scope → Prop
  | [] => True
  | scope :: others => scope.InPlace others.length ∧ Chained others

theorem InPlace.insert {scope : Scope} {index : Nat} (h : scope.InPlace index) (symbol : Symbol) :
    (scope.insert symbol).InPlace index := ⟨h.level, h.parent⟩

theorem InPlace.foldl_insert {scope : Scope} {index : Nat} (h : scope.InPlace index) (symbols : List Symbol) :
    (symbols.foldl Scope.insert scope).InPlace index := by
  induction symbols generalizing scope with
  | nil => exact h
  | cons first others ih => exact ih (h.insert first)

def alignRight (width : Nat) (s : String) : String := String.ofList (List.replicate (width - s.length) ' ') ++ s

def title : String := "SCOPE (SCOPED SYMBOL TABLE)"

def heading : String := "Scope (Scoped symbol table) contents"

def underline (c : Char) (s : String) : String := String.ofList (List.replicate s.length c)

def symbolLine (symbol : Symbol) : String := alignRight 7 symbol.name ++ ": " ++ symbol.text

/-- The scope as a table, one symbol a line. -/
def text (scope : Scope) : String :=
  String.intercalate "\n" <|
    [title, underline '=' title, "Scope name : " ++ scope.name, "Scope level: " ++ toString scope.level,
      heading, underline '-' heading] ++ scope.symbols.map symbolLine

end Scope

/-! ## Open scopes -/

structure Scopes where
  current : Scope
  /-- The scopes around the current one, from the inside out. -/
  enclosing : List Scope
  chained : Scope.Chained (current :: enclosing)
  deriving DecidableEq, Repr

namespace Scopes

/-- A single empty scope. -/
def ofName (outermost : String) : Scopes := ⟨⟨outermost, 1, none, []⟩, [], ⟨⟨rfl, rfl⟩, trivial⟩⟩

/-- A single scope with given symbols, of which a later one replaces an earlier one of its name. -/
def ofBuiltins (outermost : String) (builtins : List Symbol) : Scopes :=
  ⟨builtins.foldl Scope.insert ⟨outermost, 1, none, []⟩, [], ⟨.foldl_insert ⟨rfl, rfl⟩ builtins, trivial⟩⟩

/-- The open scopes from the inside out. -/
def inward (scopes : Scopes) : List Scope := scopes.current :: scopes.enclosing

/-- The index of the current scope, the outermost one having index 0. -/
def currentIndex (scopes : Scopes) : Nat := scopes.enclosing.length

def get? (scopes : Scopes) (index : Nat) : Option Scope := scopes.inward.reverse[index]?

def enter (scopes : Scopes) (name : String) : Scopes where
  current := ⟨name, scopes.current.level + 1, some scopes.currentIndex, []⟩
  enclosing := scopes.inward
  chained := ⟨⟨congrArg (· + 1) scopes.chained.1.level, rfl⟩, scopes.chained⟩

/-- The current scope and what is open without it. The outermost scope stays open. -/
def leave? (scopes : Scopes) : Option (Scope × Scopes) :=
  match scopes with
  | ⟨_, [], _⟩ => none
  | ⟨current, outer :: others, chained⟩ => some (current, ⟨outer, others, chained.2⟩)

/-- Declares a symbol in the current scope. -/
def define (scopes : Scopes) (symbol : Symbol) (line : Nat) : Except SemanticError Scopes :=
  if (scopes.current.get? symbol.name).isSome then
    .error (.duplicateIdentifier symbol.name scopes.current.name line)
  else .ok ⟨scopes.current.insert symbol, scopes.enclosing, ⟨scopes.chained.1.insert symbol, scopes.chained.2⟩⟩

/-- The scopes in which a name is looked up: up to the first one that holds it. -/
def searched (name : String) : List Scope → List Scope
  | [] => []
  | scope :: others => if (scope.get? name).isSome then [scope] else scope :: searched name others

/-- The symbol of the innermost scope that holds the name. -/
def lookup (scopes : Scopes) (name : String) : Option Symbol := scopes.inward.findSome? (·.get? name)

/-- The symbol that the current scope itself holds. -/
def lookupCurrent (scopes : Scopes) (name : String) : Option Symbol := scopes.current.get? name

/-! ## Laws -/

theorem leave_enter (scopes : Scopes) (name : String) :
    (scopes.enter name).leave? = some ((scopes.enter name).current, scopes) := rfl

theorem define_eq_ok_iff {scopes scopes' : Scopes} {symbol : Symbol} {line : Nat} :
    scopes.define symbol line = .ok scopes' ↔
      scopes.current.get? symbol.name = none ∧ scopes'.enclosing = scopes.enclosing ∧
        scopes'.current = { scopes.current with symbols := scopes.current.symbols ++ [symbol] } := by
  obtain ⟨current, enclosing, chained⟩ := scopes'
  unfold define Scope.insert
  rw [← Option.not_isSome_iff_eq_none]
  by_cases hheld : (scopes.current.get? symbol.name).isSome
  · simp [hheld]
  · simp [hheld, eq_comm, and_comm]

end Scopes

end MiniPascal
