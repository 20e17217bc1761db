import MiniPascal.Position
import MiniPascal.Value

/-!
# Tokens

The words of the language. A message about a token names its kind, and for names and constants also what it carries.
-/

namespace MiniPascal

/-! ## Reserved words and marks -/

inductive Keyword where
  | program
  | var
  | integer
  | real
  | div
  | procedure
  | beginBlock
  | endBlock
  deriving DecidableEq, Repr

namespace Keyword

def text : Keyword → String
  | program => "program"
  | var => "var"
  | integer => "integer"
  | real => "real"
  | div => "div"
  | procedure => "procedure"
  | beginBlock => "begin"
  | endBlock => "end"

def all : List Keyword := [program, var, integer, real, div, procedure, beginBlock, endBlock]

/-- The reserved word that is spelled so, in lower case. -/
def ofText? (s : String) : Option Keyword := all.find? (·.text == s)

end Keyword

inductive Mark where
  | assign
  | colon
  | comma
  | semicolon
  | dot
  | plus
  | minus
  | star
  | slash
  | leftParen
  | rightParen
  deriving DecidableEq, Repr

namespace Mark

def text : Mark → String
  | assign => ":="
  | colon => ":"
  | comma => ","
  | semicolon => ";"
  | dot => "."
  | plus => "+"
  | minus => "-"
  | star => "*"
  | slash => "/"
  | leftParen => "("
  | rightParen => ")"

/-- The mark that one character makes. -/
def ofChar? : Char → Option Mark
  | ':' => some colon
  | ',' => some comma
  | ';' => some semicolon
  | '.' => some dot
  | '+' => some plus
  | '-' => some minus
  | '*' => some star
  | '/' => some slash
  | '(' => some leftParen
  | ')' => some rightParen
  | _ => none

end Mark

/-! ## Tokens and their kinds -/

inductive Token where
  | keyword (word : Keyword)
  | mark (mark : Mark)
  /-- A name, in lower case. -/
  | identifier (name : String)
  | integer (n : Integer)
  | real (x : Double)
  | comment
  | newline
  | endOfInput
  deriving DecidableEq

namespace Token

/-- Tokens up to what they carry, comments and newlines being alike. -/
inductive Kind where
  | keyword (word : Keyword)
  | mark (mark : Mark)
  | identifier
  | integer
  | real
  | trivia
  | endOfInput
  deriving DecidableEq, Repr

def Kind.text : Kind → String
  | keyword word => "'" ++ word.text ++ "'"
  | mark m => "'" ++ m.text ++ "'"
  | identifier => "identifier"
  | integer => "integer constant"
  | real => "real constant"
  | trivia => "whitespace"
  | endOfInput => "end of input"

def kind : Token → Kind
  | keyword word => .keyword word
  | mark m => .mark m
  | identifier _ => .identifier
  | integer _ => .integer
  | real _ => .real
  | comment => .trivia
  | newline => .trivia
  | endOfInput => .endOfInput

def describe : Token → String
  | identifier name => s!"identifier '{name}'"
  | integer n => "integer constant " ++ n.text
  | real x => "real constant " ++ x.shortText
  | token => token.kind.text

end Token

/-- A token where it stands: from `position` up to the byte offset `stop`. -/
structure Lexeme where
  token : Token
  position : Position
  stop : Nat
  deriving DecidableEq

namespace Lexeme

def kind (t : Lexeme) : Token.Kind := t.token.kind

def line (t : Lexeme) : Nat := t.position.line

def column (t : Lexeme) : Nat := t.position.column

end Lexeme

end MiniPascal
