import MiniPascal.Scope
import MiniPascal.Value

/-!
# The log

What a run does, as a list of events. An event is reported at the level `debug` or, if it is about a single name or
value, at the level `trace`.
-/

namespace MiniPascal

/-- How much is reported, from nothing to everything. -/
inductive LogLevel where
  | off
  | error
  | warn
  | info
  | debug
  | trace
  deriving DecidableEq, Repr

def LogLevel.rank : LogLevel → Nat
  | off => 0
  | error => 1
  | warn => 2
  | info => 3
  | debug => 4
  | trace => 5

def LogLevel.text : LogLevel → String
  | off => "OFF"
  | error => "ERROR"
  | warn => "WARN"
  | info => "INFO"
  | debug => "DEBUG"
  | trace => "TRACE"

inductive Event where
  | lexed (tokens : Nat)
  | parsed (program : String) (declarations : Nat)
  | entered (scope : String)
  /-- A scope is left, with all that was declared in it. -/
  | left (scope : Scope)
  | defined (symbol : Symbol) (scope : String)
  | lookedUp (name scope : String)
  | evaluating (program : String)
  | skipped (procedure : String)
  | assigned (name : String) (value : Value)
  deriving DecidableEq

namespace Event

def level : Event → LogLevel
  | lexed _ => .debug
  | entered _ => .debug
  | left _ => .debug
  | _ => .trace

def message : Event → String
  | lexed tokens => s!"lexed {tokens} tokens"
  | parsed program declarations => s!"parsed program '{program}' with {declarations} declarations"
  | entered scope => s!"Enter scope: {scope}"
  | left scope => "Leave scope: " ++ scope.name ++ "\n" ++ scope.text
  | defined symbol scope => "Define: " ++ symbol.text ++ " in scope '" ++ scope ++ "'"
  | lookedUp name scope => s!"Lookup: {name}. (Scope name: {scope})"
  | evaluating program => s!"evaluating program '{program}'"
  | skipped procedure => s!"skipping body of procedure '{procedure}'"
  | assigned name value => "assign " ++ name ++ " := " ++ value.text

/-- Whether the event is reported when events up to `limit` are. -/
def shownAt (e : Event) (limit : LogLevel) : Bool := decide (e.level.rank ≤ limit.rank)

end Event

end MiniPascal
