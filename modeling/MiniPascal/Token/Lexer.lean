import MiniPascal.Token.Basic

/-!
# Reading tokens

A text is read from left to right: first blanks, newlines and closed comments are skipped (`Lexer.pieces`), which moves
the start of the line on (`Cursor.skip`), then the longest token at the front is taken (`Lexer.reading`). A fault takes
up characters too, so that reading can go on behind it.

* `Lexer.pieces_append`, `Lexer.reading_append`: nothing of the text is lost.
* `Lexer.length_reading_rest_lt`: each reading takes up at least one character.
-/

namespace MiniPascal

/-! ## Faults -/

inductive LexicalFault where
  | unexpectedCharacter (character : Char)
  | unterminatedComment
  | integerOutOfRange (literal : String)
  /-- A real constant beyond the finite range. -/
  | malformedReal (literal : String)
  deriving DecidableEq, Repr

structure LexicalError where
  fault : LexicalFault
  line : Nat
  column : Nat
  deriving DecidableEq, Repr

def LexicalFault.text : LexicalFault → String
  | unexpectedCharacter c => s!"Unexpected character '{c}'."
  | unterminatedComment => "Comment is never closed with '\x7d'."
  | integerOutOfRange literal => s!"Integer literal {literal} is too large."
  | malformedReal literal => s!"Malformed real literal {literal}."

def LexicalError.message (e : LexicalError) : String :=
  let line := e.line
  let column := e.column
  s!"Error on line {line}, column {column}: " ++ e.fault.text

namespace Lexer

/-! ## Characters -/

def isBlank (c : Char) : Bool := c == ' ' || c == '\t' || c == '\r' || c == '\x0c' || c == '\n'

def isWordStart (c : Char) : Bool := c.isAlpha || c == '_'

def isWordPart (c : Char) : Bool := c.isAlphanum || c == '_'

def opensComment (c : Char) : Bool := c == '\x7b'

def closesComment (c : Char) : Bool := c == '\x7d'

/-! ## Trivia -/

theorem length_dropWhile_le {α : Type} (p : α → Bool) (l : List α) : (l.dropWhile p).length ≤ l.length :=
  (List.dropWhile_suffix p).length_le

/-- What is skipped in one go: a blank on the line, a newline, or a comment with its braces. -/
inductive Piece where
  | blank (character : Char)
  | newline
  | comment (text : List Char)

def Piece.text : Piece → List Char
  | blank c => [c]
  | newline => ['\n']
  | comment text => text

/-- The blanks, newlines and closed comments at the front, and what follows them. A comment ends with the first brace
that closes one. -/
def pieces : List Char → List Piece × List Char
  | [] => ([], [])
  | c :: cs =>
    if c = '\n' then
      let (skipped, rest) := pieces cs
      (.newline :: skipped, rest)
    else if isBlank c then
      let (skipped, rest) := pieces cs
      (.blank c :: skipped, rest)
    else if opensComment c then
      match _h : cs.dropWhile (!closesComment ·) with
      | [] => ([], c :: cs)
      | close :: tail =>
        let (skipped, rest) := pieces tail
        (.comment (c :: cs.takeWhile (!closesComment ·) ++ [close]) :: skipped, rest)
    else ([], c :: cs)
termination_by text => text.length
decreasing_by
  · simp
  · simp
  · have := length_dropWhile_le (!closesComment ·) cs
    rw [_h] at this
    simp only [List.length_cons] at this ⊢
    omega

theorem pieces_append (cs : List Char) : (pieces cs).1.flatMap Piece.text ++ (pieces cs).2 = cs := by
  fun_induction pieces cs with
  | case1 => rfl
  | case2 cs skipped rest heq ih => simpa [heq, Piece.text] using ih
  | case3 c cs hn hc skipped rest heq ih => simpa [heq, Piece.text] using ih
  | case4 => rfl
  | case5 c cs hn hc ho close tail hd skipped rest heq ih =>
    have := List.takeWhile_append_dropWhile (p := (!closesComment ·)) (l := cs)
    rw [heq] at ih
    rw [hd, ← ih] at this
    simpa [Piece.text] using this
  | case6 => rfl

theorem length_pieces_rest_le (cs : List Char) : (pieces cs).2.length ≤ cs.length := by
  have := congrArg List.length (pieces_append cs)
  rw [List.length_append] at this
  omega

/-! ## One token -/

/-- The front of a text: the characters taken up, what they stand for, and the rest. -/
structure Reading where
  text : List Char
  result : Except LexicalFault Token
  rest : List Char

/-- A whole number counts if 64 bits hold it, however many zeros lead it. -/
def readInteger (digits rest : List Char) : Reading where
  text := digits
  result := match Integer.ofInt? (Nat.ofDigitChars 10 digits 0) with
    | some n => .ok (.integer n)
    | none => .error (.integerOutOfRange (String.ofList digits))
  rest := rest

/-- A real constant counts if its nearest double is finite. -/
def readReal (whole fraction rest : List Char) : Reading where
  text := whole ++ '.' :: fraction
  result :=
    let magnitude := Double.ofDigits whole fraction
    if magnitude < Double.infinity then .ok (.real (Double.ofMagnitude false magnitude))
    else .error (.malformedReal (String.ofList (whole ++ '.' :: fraction)))
  rest := rest

/-- A point belongs to the number only if a digit follows it. -/
def readNumber (text : List Char) : Reading :=
  let whole := text.takeWhile Char.isDigit
  match text.dropWhile Char.isDigit with
  | '.' :: d :: rest =>
    if d.isDigit then readReal whole ((d :: rest).takeWhile Char.isDigit) ((d :: rest).dropWhile Char.isDigit)
    else readInteger whole ('.' :: d :: rest)
  | rest => readInteger whole rest

/-- Letters may be of either case. -/
def readWord (text : List Char) : Reading where
  text := text.takeWhile isWordPart
  result :=
    let name := String.ofList ((text.takeWhile isWordPart).map Char.toLower)
    match Keyword.ofText? name with
    | some word => .ok (.keyword word)
    | none => .ok (.identifier name)
  rest := text.dropWhile isWordPart

/-- What the text `c :: cs` starts with if that is no trivia. -/
def reading (c : Char) (cs : List Char) : Reading :=
  if c.isDigit then readNumber (c :: cs)
  else if isWordStart c then readWord (c :: cs)
  else if opensComment c then ⟨c :: cs, .error .unterminatedComment, []⟩
  else match c, cs with
    | ':', '=' :: rest => ⟨[':', '='], .ok (.mark .assign), rest⟩
    | c, cs => match Mark.ofChar? c with
      | some m => ⟨[c], .ok (.mark m), cs⟩
      | none => ⟨[c], .error (.unexpectedCharacter c), cs⟩

theorem readNumber_append (text : List Char) : (readNumber text).text ++ (readNumber text).rest = text := by
  have hsplit := List.takeWhile_append_dropWhile (p := Char.isDigit) (l := text)
  unfold readNumber
  dsimp only
  split
  next d rest hd =>
    split
    · rw [hd] at hsplit
      simp only [readReal, List.append_assoc, List.cons_append, List.takeWhile_append_dropWhile]
      exact hsplit
    · rw [hd] at hsplit; exact hsplit
  next => exact hsplit

theorem reading_append (c : Char) (cs : List Char) : (reading c cs).text ++ (reading c cs).rest = c :: cs := by
  unfold reading
  split
  · exact readNumber_append _
  split
  · exact List.takeWhile_append_dropWhile
  split
  · simp
  split
  · rfl
  split <;> rfl

theorem readNumber_text_ne_nil {c : Char} {cs : List Char} (hc : c.isDigit = true) :
    (readNumber (c :: cs)).text ≠ [] := by
  unfold readNumber
  dsimp only
  split
  next => split <;> simp [readReal, readInteger, hc]
  next => simp [readInteger, hc]

theorem isWordPart_of_isWordStart {c : Char} (h : isWordStart c = true) : isWordPart c = true := by
  simp only [isWordStart, isWordPart, Char.isAlphanum, Bool.or_eq_true] at h ⊢
  exact h.imp_left Or.inl

theorem reading_text_ne_nil (c : Char) (cs : List Char) : (reading c cs).text ≠ [] := by
  unfold reading
  split
  next hc => exact readNumber_text_ne_nil hc
  split
  next hc => simp [readWord, isWordPart_of_isWordStart hc]
  split
  · simp
  split
  · simp
  split <;> simp

theorem length_reading_rest_lt (c : Char) (cs : List Char) : (reading c cs).rest.length < (c :: cs).length := by
  have happend := congrArg List.length (reading_append c cs)
  have hne := List.length_pos_iff.mpr (reading_text_ne_nil c cs)
  rw [List.length_append] at happend
  omega

end Lexer

/-! ## The state of reading -/

/-- Behind a piece of trivia. Newlines are counted where they stand alone and in comments. -/
def Cursor.skip (cursor : Cursor) : Lexer.Piece → Cursor
  | .blank c => cursor.advance [c]
  | .newline => cursor.newline
  | .comment text => cursor.comment text

/-- A text that is being read: all of it, what is left of it, and how far it was read. -/
structure Lexer where
  source : List Char
  rest : List Char
  cursor : Cursor
  /-- Whether `Lexer.next?` has come to its end. -/
  finished : Bool
  deriving DecidableEq

namespace Lexer

def ofString (source : String) : Lexer := ⟨source.toList, source.toList, .start, false⟩

/-- What `r` says when it is found at `start`. -/
def Reading.locate (r : Reading) (start : Position) : Except LexicalError Lexeme :=
  match r.result with
  | .ok token => .ok ⟨token, start, start.offset + byteLength r.text⟩
  | .error fault => .error ⟨fault, start.line, start.column⟩

/-- The next token or fault. Behind the last token stands the end of input, as often as one asks. -/
def nextToken (lexer : Lexer) : Except LexicalError Lexeme × Lexer :=
  let (skipped, rest) := pieces lexer.rest
  let cursor := skipped.foldl Cursor.skip lexer.cursor
  match rest with
  | [] =>
    let stop := byteLength lexer.source
    (.ok ⟨.endOfInput, cursor.position lexer.source stop, stop⟩, { lexer with rest := [], cursor := cursor })
  | c :: cs =>
    let r := reading c cs
    (r.locate (cursor.position lexer.source cursor.offset),
      { lexer with rest := r.rest, cursor := cursor.advance r.text })

/-- Whether nothing is read after this: a fault or the end of input. -/
def isLast : Except LexicalError Lexeme → Bool
  | .ok t => t.token == .endOfInput
  | .error _ => true

/-- The next token or fault until `next?` itself has given a fault or the end of input. -/
def next? (lexer : Lexer) : Option (Except LexicalError Lexeme) × Lexer :=
  if lexer.finished then (none, lexer)
  else
    let (found, lexer) := lexer.nextToken
    (some found, { lexer with finished := isLast found })

theorem length_nextToken_rest_lt {lexer : Lexer} (h : isLast lexer.nextToken.1 = false) :
    lexer.nextToken.2.rest.length < lexer.rest.length := by
  have hle := length_pieces_rest_le lexer.rest
  unfold nextToken at h ⊢
  dsimp only at h ⊢
  split
  next hnil => simp [hnil, isLast] at h
  next c cs hcons =>
    have := length_reading_rest_lt c cs
    rw [hcons] at hle
    dsimp only
    omega

/-- All tokens up to the end of input, or the first fault. -/
def tokens (lexer : Lexer) : Except LexicalError (List Lexeme) :=
  match _h : lexer.nextToken with
  | (.error e, _) => .error e
  | (.ok t, next) =>
    if _hlast : t.token = .endOfInput then .ok [t]
    else
      match next.tokens with
      | .ok ts => .ok (t :: ts)
      | .error e => .error e
termination_by lexer.rest.length
decreasing_by
  have := @length_nextToken_rest_lt lexer (by simp [_h, isLast, _hlast])
  rwa [_h] at this

end Lexer

/-- The tokens of a text, the end of input included, or the first fault. -/
def tokenize (source : String) : Except LexicalError (List Lexeme) := (Lexer.ofString source).tokens

end MiniPascal
