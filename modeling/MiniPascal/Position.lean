/-!
# Positions in a text

A place is known by its byte offset and, for people, by its line and its column, both counted from 1. While a text is
read, only the number of the line and the byte at which the line starts are kept (`Cursor`); columns count characters,
and are counted when they are asked for (`Cursor.position`).
-/

namespace MiniPascal

structure Position where
  offset : Nat
  line : Nat
  column : Nat
  deriving DecidableEq, Repr

/-! ## Bytes of a text -/

/-- The length of a text in bytes. -/
def byteLength : List Char → Nat
  | [] => 0
  | c :: cs => c.utf8Size + byteLength cs

/-- The text without the characters of its first `n` bytes. -/
def dropBytes : Nat → List Char → List Char
  | _, [] => []
  | n, c :: cs => if n = 0 then c :: cs else dropBytes (n - c.utf8Size) cs

/-- The characters of the first `n` bytes. -/
def takeBytes : Nat → List Char → List Char
  | _, [] => []
  | n, c :: cs => if n = 0 then [] else c :: takeBytes (n - c.utf8Size) cs

/-- The characters between two byte offsets. -/
def charsBetween (text : List Char) (start stop : Nat) : List Char := takeBytes (stop - start) (dropBytes start text)

/-- The byte offset of the last newline. -/
def lastNewline? : List Char → Option Nat
  | [] => none
  | c :: cs => match lastNewline? cs with
    | some offset => some (c.utf8Size + offset)
    | none => if c = '\n' then some 0 else none

/-! ## How far a text was read -/

structure Cursor where
  /-- The byte offset up to which the text was read. -/
  offset : Nat
  line : Nat
  /-- The byte offset at which the line starts. -/
  lineStart : Nat
  deriving DecidableEq

namespace Cursor

def start : Cursor := ⟨0, 1, 0⟩

/-- Behind a text on the same line. -/
def advance (cursor : Cursor) (text : List Char) : Cursor := { cursor with offset := cursor.offset + byteLength text }

/-- Behind a newline, where the next line starts. -/
def newline (cursor : Cursor) : Cursor :=
  let next := cursor.advance ['\n']
  { next with line := next.line + 1, lineStart := next.offset }

/-- Behind a comment. If it has newlines, the line starts behind the last of them. -/
def comment (cursor : Cursor) (text : List Char) : Cursor :=
  let next := cursor.advance text
  match lastNewline? text with
  | some offset => { next with line := next.line + text.count '\n', lineStart := cursor.offset + offset + 1 }
  | none => next

/-- The place of a byte offset on the current line. -/
def position (cursor : Cursor) (source : List Char) (offset : Nat) : Position where
  offset := offset
  line := cursor.line
  column := (charsBetween source (min cursor.lineStart offset) offset).length + 1

end Cursor

end MiniPascal
