/-!
# Symbols

What a name stands for once it is declared: a built-in type, a variable or a procedure.
-/

namespace MiniPascal

/-- A variable or a parameter, with the name of its type. -/
structure VariableSymbol where
  name : String
  type : String
  deriving DecidableEq, Repr

inductive Symbol where
  | builtinType (name : String)
  | variable (declared : VariableSymbol)
  | procedure (name : String) (parameters : List VariableSymbol)
  deriving DecidableEq, Repr

def VariableSymbol.text (v : VariableSymbol) : String :=
  "<VarSymbol(name='" ++ v.name ++ "', type='" ++ v.type ++ "')>"

namespace Symbol

def name : Symbol → String
  | builtinType name => name
  | .variable declared => declared.name
  | procedure name _ => name

/-- The name of a type, if the symbol is one. -/
def type? : Symbol → Option String
  | builtinType name => some name
  | _ => none

def text : Symbol → String
  | builtinType name => "<BuiltinTypeSymbol(name='" ++ name ++ "')>"
  | .variable declared => declared.text
  | procedure name parameters =>
    "<ProcedureSymbol(name='" ++ name ++ "', parameters=["
      ++ String.intercalate ", " (parameters.map VariableSymbol.text) ++ "])>"

end Symbol

end MiniPascal
