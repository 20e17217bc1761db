import Mathlib.Data.List.Forall2
import MiniPascal.Proofs.Interpreter
import MiniPascal.Proofs.Token.Composition

/-!
# Letters of either case

Writing a letter of a text in the other case changes no class of characters that the lexer looks at, no place, and no
token, since names and reserved words are made of small letters. So every step of the lexer commutes with writing the
whole text in small letters (`Lexer.nextToken_lowered`), and two texts with the same small letters have the same tokens.

* `run_of_differInCase`: texts that differ only in the case of letters cannot be told apart.
-/

namespace MiniPascal

/-- The same character, or the same ASCII letter in the other case. -/
def SameLetter (c d : Char) : Prop :=
  c = d ∨ (c.isUpper = true ∧ d = c.toLower) ∨ (d.isUpper = true ∧ c = d.toLower)

instance : DecidableRel SameLetter := fun c d =>
  inferInstanceAs (Decidable (c = d ∨ (c.isUpper = true ∧ d = c.toLower) ∨ (d.isUpper = true ∧ c = d.toLower)))

/-- The texts differ at most in the case of ASCII letters. -/
def DifferInCase (source other : String) : Prop := List.Forall₂ SameLetter source.toList other.toList

/-! ## Characters -/

theorem isUpper_iff {c : Char} : c.isUpper = true ↔ 65 ≤ c.toNat ∧ c.toNat ≤ 90 := by
  delta Char.isUpper
  simp [UInt32.le_iff_toNat_le, ← Char.toNat_val]

theorem toLower_of_not_isUpper {c : Char} (h : c.isUpper = false) : c.toLower = c := by
  delta Char.isUpper at h
  delta Char.toLower
  rw [dif_neg (by simpa using h)]

/-- A small letter stands 32 characters behind its capital. -/
theorem toNat_toLower {c : Char} (h : c.isUpper = true) : c.toLower.toNat = c.toNat + 32 := by
  have hrange := isUpper_iff.mp h
  delta Char.isUpper at h
  delta Char.toLower
  rw [dif_pos (by simpa using h)]
  show (c.val + ('a'.val - 'A'.val)).toNat = _
  rw [UInt32.toNat_add]
  show (c.toNat + 32) % 2 ^ 32 = c.toNat + 32
  omega

theorem isUpper_toLower (c : Char) : c.toLower.isUpper = false := by
  by_cases hc : c.isUpper = true
  · have hsmall := toNat_toLower hc
    rw [isUpper_iff] at hc
    rw [Bool.eq_false_iff, Ne, isUpper_iff]
    omega
  · rw [Bool.not_eq_true] at hc
    rw [toLower_of_not_isUpper hc, hc]

theorem toLower_toLower (c : Char) : c.toLower.toLower = c.toLower := toLower_of_not_isUpper (isUpper_toLower c)

theorem isAlpha_toLower (c : Char) : c.toLower.isAlpha = c.isAlpha := by
  by_cases hc : c.isUpper = true
  · have hsmall := toNat_toLower hc
    rw [isUpper_iff] at hc
    rw [Bool.eq_iff_iff, Lexer.isAlpha_iff, Lexer.isAlpha_iff]
    omega
  · rw [toLower_of_not_isUpper (by simpa using hc)]

theorem SameLetter.toLower_eq {c d : Char} (h : SameLetter c d) : c.toLower = d.toLower := by
  rcases h with rfl | ⟨-, rfl⟩ | ⟨-, rfl⟩
  · rfl
  · rw [toLower_toLower]
  · rw [toLower_toLower]

theorem DifferInCase.map_toLower_eq {source other : String} (h : DifferInCase source other) :
    source.toList.map Char.toLower = other.toList.map Char.toLower := by
  unfold DifferInCase at h
  rw [← List.forall₂_eq_eq_eq, List.forall₂_map_left_iff, List.forall₂_map_right_iff]
  exact h.imp fun _ _ hc => hc.toLower_eq

theorem toLower_of_not_isAlpha {c : Char} (h : c.isAlpha = false) : c.toLower = c :=
  toLower_of_not_isUpper (Bool.or_eq_false_iff.mp h).1

/-- A class without letters does not notice the case of letters. -/
theorem apply_toLower {p : Char → Bool} (hp : ∀ c, c.isAlpha = true → p c = false) (c : Char) :
    p c.toLower = p c := by
  by_cases hc : c.isAlpha = true
  · rw [hp c hc, hp c.toLower (by rw [isAlpha_toLower, hc])]
  · rw [toLower_of_not_isAlpha (by simpa using hc)]

theorem beq_toLower {d : Char} (hd : d.isAlpha = false) (c : Char) : (c.toLower == d) = (c == d) := by
  refine apply_toLower (p := (· == d)) (fun c hc => ?_) c
  rw [beq_eq_false_iff_ne]
  rintro rfl
  rw [hd] at hc
  cases hc

theorem isDigit_toLower (c : Char) : c.toLower.isDigit = c.isDigit := by
  refine apply_toLower (fun c hc => ?_) c
  rw [Lexer.isAlpha_iff] at hc
  rw [Bool.eq_false_iff, Ne, Lexer.isDigit_iff]
  omega

theorem toLower_of_isDigit {c : Char} (h : c.isDigit = true) : c.toLower = c := by
  apply toLower_of_not_isAlpha
  rw [Lexer.isDigit_iff] at h
  rw [Bool.eq_false_iff, Ne, Lexer.isAlpha_iff]
  omega

theorem map_toLower_of_digits {text : List Char} (h : ∀ c ∈ text, c.isDigit = true) :
    text.map Char.toLower = text := by
  rw [List.map_congr_left fun c hc => toLower_of_isDigit (h c hc), List.map_id']

/-- A letter is one byte long. -/
theorem utf8Size_of_isAlpha {c : Char} (h : c.isAlpha = true) : c.utf8Size = 1 := by
  rw [Lexer.isAlpha_iff] at h
  rw [Char.utf8Size_eq_one_iff, UInt32.le_iff_toNat_le, Char.toNat_val]
  show c.toNat ≤ 127
  omega

theorem utf8Size_toLower (c : Char) : c.toLower.utf8Size = c.utf8Size := by
  by_cases hc : c.isAlpha = true
  · rw [utf8Size_of_isAlpha hc, utf8Size_of_isAlpha (by rw [isAlpha_toLower, hc])]
  · rw [toLower_of_not_isAlpha (by simpa using hc)]

/-! ## Places -/

theorem byteLength_map_toLower (text : List Char) : byteLength (text.map Char.toLower) = byteLength text := by
  induction text with
  | nil => rfl
  | cons c cs ih => rw [List.map_cons, byteLength, byteLength, utf8Size_toLower, ih]

theorem dropBytes_map_toLower (n : Nat) (text : List Char) :
    dropBytes n (text.map Char.toLower) = (dropBytes n text).map Char.toLower := by
  induction text generalizing n with
  | nil => rfl
  | cons c cs ih =>
    rw [List.map_cons, dropBytes, dropBytes, utf8Size_toLower, ih]
    split <;> rfl

theorem takeBytes_map_toLower (n : Nat) (text : List Char) :
    takeBytes n (text.map Char.toLower) = (takeBytes n text).map Char.toLower := by
  induction text generalizing n with
  | nil => rfl
  | cons c cs ih =>
    rw [List.map_cons, takeBytes, takeBytes, utf8Size_toLower, ih]
    split <;> rfl

theorem toLower_eq_newline_iff {c : Char} : c.toLower = '\n' ↔ c = '\n' := by
  rw [← beq_iff_eq, beq_toLower (by decide), beq_iff_eq]

theorem lastNewline?_map_toLower (text : List Char) : lastNewline? (text.map Char.toLower) = lastNewline? text := by
  induction text with
  | nil => rfl
  | cons c cs ih => simp only [List.map_cons, lastNewline?, ih, utf8Size_toLower, toLower_eq_newline_iff]

theorem count_newline_map_toLower (text : List Char) : (text.map Char.toLower).count '\n' = text.count '\n' := by
  induction text with
  | nil => rfl
  | cons c cs ih => simp only [List.map_cons, List.count_cons, ih, beq_iff_eq, toLower_eq_newline_iff]

namespace Cursor

theorem advance_map_toLower (cursor : Cursor) (text : List Char) :
    cursor.advance (text.map Char.toLower) = cursor.advance text := by
  rw [advance, advance, byteLength_map_toLower]

theorem comment_map_toLower (cursor : Cursor) (text : List Char) :
    cursor.comment (text.map Char.toLower) = cursor.comment text := by
  rw [comment, comment, lastNewline?_map_toLower, advance_map_toLower, count_newline_map_toLower]

theorem position_map_toLower (cursor : Cursor) (source : List Char) (offset : Nat) :
    cursor.position (source.map Char.toLower) offset = cursor.position source offset := by
  rw [position, position, charsBetween, charsBetween, dropBytes_map_toLower, takeBytes_map_toLower, List.length_map]

end Cursor

namespace Lexer

/-! ## Trivia -/

theorem isBlank_toLower (c : Char) : isBlank c.toLower = isBlank c := by
  unfold isBlank
  rw [beq_toLower (by decide), beq_toLower (by decide), beq_toLower (by decide), beq_toLower (by decide),
    beq_toLower (by decide)]

theorem opensComment_toLower (c : Char) : opensComment c.toLower = opensComment c := beq_toLower (by decide) c

theorem closesComment_toLower (c : Char) : closesComment c.toLower = closesComment c := beq_toLower (by decide) c

theorem isWordStart_toLower (c : Char) : isWordStart c.toLower = isWordStart c := by
  unfold isWordStart
  rw [isAlpha_toLower, beq_toLower (by decide)]

theorem isWordPart_toLower (c : Char) : isWordPart c.toLower = isWordPart c := by
  unfold isWordPart Char.isAlphanum
  rw [isAlpha_toLower, isDigit_toLower, beq_toLower (by decide)]

/-- Runs of characters of a class that does not notice the case of letters. -/
theorem takeWhile_map_toLower {p : Char → Bool} (hp : ∀ c, p c.toLower = p c) (text : List Char) :
    (text.map Char.toLower).takeWhile p = (text.takeWhile p).map Char.toLower := by
  rw [List.takeWhile_map, show p ∘ Char.toLower = p from funext hp]

theorem dropWhile_map_toLower {p : Char → Bool} (hp : ∀ c, p c.toLower = p c) (text : List Char) :
    (text.map Char.toLower).dropWhile p = (text.dropWhile p).map Char.toLower := by
  rw [List.dropWhile_map, show p ∘ Char.toLower = p from funext hp]

/-- The same piece in small letters. -/
def Piece.lowered : Piece → Piece
  | blank c => .blank c.toLower
  | newline => .newline
  | comment text => .comment (text.map Char.toLower)

theorem pieces_map_toLower (text : List Char) :
    pieces (text.map Char.toLower) = ((pieces text).1.map Piece.lowered, (pieces text).2.map Char.toLower) := by
  have hclose : ∀ c : Char, (!closesComment c.toLower) = !closesComment c := fun c => by rw [closesComment_toLower]
  fun_induction pieces text with
  | case1 => rw [List.map_nil, pieces]; rfl
  | case2 cs skipped rest heq ih =>
    rw [heq] at ih
    rw [List.map_cons, pieces, if_pos (by decide), ih]
    rfl
  | case3 c cs hn hc skipped rest heq ih =>
    rw [heq] at ih
    rw [List.map_cons, pieces, if_neg (by rwa [toLower_eq_newline_iff]), if_pos (by rwa [isBlank_toLower]), ih]
    rfl
  | case4 c cs hn hc ho hd =>
    have hopen := dropWhile_map_toLower (p := fun c => !closesComment c) hclose cs
    rw [hd] at hopen
    rw [List.map_cons, pieces, if_neg (by rwa [toLower_eq_newline_iff]), if_neg (by rwa [isBlank_toLower]),
      if_pos (by rwa [opensComment_toLower])]
    split
    next => rfl
    next hcons => rw [hopen] at hcons; cases hcons
  | case5 c cs hn hc ho close tail hd skipped rest heq ih =>
    -- the comment ends with the same brace, whatever letters stand in it
    have hclosed := dropWhile_map_toLower (p := fun c => !closesComment c) hclose cs
    rw [hd, List.map_cons] at hclosed
    rw [heq] at ih
    rw [List.map_cons, pieces, if_neg (by rwa [toLower_eq_newline_iff]), if_neg (by rwa [isBlank_toLower]),
      if_pos (by rwa [opensComment_toLower]), takeWhile_map_toLower (p := fun c => !closesComment c) hclose]
    split
    next hnil => rw [hclosed] at hnil; cases hnil
    next hcons =>
      rw [hclosed] at hcons
      cases hcons
      rw [ih]
      simp [Piece.lowered]
  | case6 c cs hn hc ho =>
    rw [List.map_cons, pieces, if_neg (by rwa [toLower_eq_newline_iff]), if_neg (by rwa [isBlank_toLower]),
      if_neg (by rwa [opensComment_toLower])]
    rfl

theorem skip_lowered (cursor : Cursor) (piece : Piece) : cursor.skip piece.lowered = cursor.skip piece := by
  cases piece with
  | blank c => exact cursor.advance_map_toLower [c]
  | newline => rfl
  | comment text => exact cursor.comment_map_toLower text

/-! ## Readings -/

/-- The same reading of a text in small letters. -/
def Reading.lowered (r : Reading) : Reading := ⟨r.text.map Char.toLower, r.result, r.rest.map Char.toLower⟩

theorem readWord_map_toLower (text : List Char) : readWord (text.map Char.toLower) = (readWord text).lowered := by
  have hmap : ∀ cs : List Char, (cs.map Char.toLower).map Char.toLower = cs.map Char.toLower := by
    intro cs
    rw [List.map_map]
    exact List.map_congr_left fun c _ => toLower_toLower c
  simp only [readWord, Reading.lowered, takeWhile_map_toLower isWordPart_toLower,
    dropWhile_map_toLower isWordPart_toLower, hmap]

theorem readInteger_map_toLower {digits : List Char} (hdigits : ∀ c ∈ digits, c.isDigit = true) (rest : List Char) :
    readInteger (digits.map Char.toLower) (rest.map Char.toLower) = (readInteger digits rest).lowered := by
  simp only [readInteger, Reading.lowered, map_toLower_of_digits hdigits]

theorem readReal_map_toLower {whole fraction : List Char} (hwhole : ∀ c ∈ whole, c.isDigit = true)
    (hfraction : ∀ c ∈ fraction, c.isDigit = true) (rest : List Char) :
    readReal (whole.map Char.toLower) (fraction.map Char.toLower) (rest.map Char.toLower) =
      (readReal whole fraction rest).lowered := by
  have hpoint : '.'.toLower = '.' := by decide
  simp only [readReal, Reading.lowered, List.map_append, List.map_cons, hpoint, map_toLower_of_digits hwhole,
    map_toLower_of_digits hfraction]

theorem isDigit_of_mem_takeWhile (text : List Char) : ∀ c ∈ text.takeWhile Char.isDigit, c.isDigit = true :=
  fun c hc => List.all_eq_true.mp List.all_takeWhile c hc

theorem readNumber_map_toLower (text : List Char) :
    readNumber (text.map Char.toLower) = (readNumber text).lowered := by
  have hdrop := dropWhile_map_toLower isDigit_toLower text
  by_cases hpoint : ∃ d rest, text.dropWhile Char.isDigit = '.' :: d :: rest ∧ d.isDigit = true
  · obtain ⟨d, rest, hrest, hd⟩ := hpoint
    rw [hrest] at hdrop
    rw [readNumber_of_fraction hrest hd, readNumber_of_fraction hdrop (by rw [isDigit_toLower, hd]), ← List.map_cons,
      takeWhile_map_toLower isDigit_toLower, takeWhile_map_toLower isDigit_toLower,
      dropWhile_map_toLower isDigit_toLower]
    exact readReal_map_toLower (isDigit_of_mem_takeWhile _) (isDigit_of_mem_takeWhile _) _
  · have hwhole : ∀ d rest, text.dropWhile Char.isDigit = '.' :: d :: rest → d.isDigit = false := by
      intro d rest hrest
      exact Bool.eq_false_iff.mpr fun hd => hpoint ⟨d, rest, hrest, hd⟩
    have hlowered : ∀ d rest, (text.map Char.toLower).dropWhile Char.isDigit = '.' :: d :: rest →
        d.isDigit = false := by
      intro d rest hrest
      rw [hdrop] at hrest
      obtain ⟨point, tail, htext, hp, htail⟩ := List.map_eq_cons_iff.mp hrest
      obtain ⟨e, es, rfl, rfl, -⟩ := List.map_eq_cons_iff.mp htail
      have hp : point = '.' := by
        rw [← beq_iff_eq, beq_toLower (by decide), beq_iff_eq] at hp
        exact hp
      rw [isDigit_toLower]
      exact hwhole e es (by rw [htext, hp])
    rw [readNumber_of_whole hwhole, readNumber_of_whole hlowered, hdrop, takeWhile_map_toLower isDigit_toLower]
    exact readInteger_map_toLower (isDigit_of_mem_takeWhile _) _

/-- What starts a text starts it also in small letters. -/
theorem reading_toLower (c : Char) (cs : List Char) :
    reading c.toLower (cs.map Char.toLower) = (reading c cs).lowered := by
  by_cases hdigit : c.isDigit = true
  · simpa [reading, hdigit, isDigit_toLower] using readNumber_map_toLower (c :: cs)
  by_cases hstart : isWordStart c = true
  · simpa [reading, hdigit, hstart, isDigit_toLower, isWordStart_toLower] using readWord_map_toLower (c :: cs)
  by_cases hcomment : opensComment c = true
  · simp [reading, hdigit, hstart, hcomment, isDigit_toLower, isWordStart_toLower, opensComment_toLower,
      Reading.lowered]
  rw [Bool.not_eq_true] at hdigit hstart hcomment
  -- what is left is no letter
  have hself : c.toLower = c := by
    apply toLower_of_not_isAlpha
    simp only [isWordStart, Bool.or_eq_false_iff] at hstart
    exact hstart.1
  rw [hself]
  by_cases hassign : c = ':' ∧ ∃ tail, cs = '=' :: tail
  · obtain ⟨rfl, tail, rfl⟩ := hassign
    rfl
  · have hsingle : c = ':' → ∀ tail, cs ≠ '=' :: tail := fun hc tail hcs => hassign ⟨hc, tail, hcs⟩
    have hlowered : c = ':' → ∀ tail, cs.map Char.toLower ≠ '=' :: tail := by
      intro hc tail hcs
      obtain ⟨d, ds, rfl, hd, -⟩ := List.map_eq_cons_iff.mp hcs
      rw [← beq_iff_eq, beq_toLower (by decide), beq_iff_eq] at hd
      exact hsingle hc ds (by rw [hd])
    rw [reading_of_single hdigit hstart hcomment hlowered, reading_of_single hdigit hstart hcomment hsingle]
    cases Mark.ofChar? c <;> simp [Reading.lowered, hself]

/-! ## Tokens -/

/-- The lexer in its text in small letters. -/
def lowered (lexer : Lexer) : Lexer :=
  { lexer with source := lexer.source.map Char.toLower, rest := lexer.rest.map Char.toLower }

theorem locate_lowered (r : Reading) (p : Position) : r.lowered.locate p = r.locate p := by
  unfold Reading.locate Reading.lowered
  rw [byteLength_map_toLower]

theorem behindTrivia_lowered (lexer : Lexer) : lexer.lowered.behindTrivia = lexer.behindTrivia := by
  unfold behindTrivia lowered
  dsimp only
  rw [pieces_map_toLower, List.foldl_map]
  simp only [skip_lowered]

theorem start_lowered (lexer : Lexer) : lexer.lowered.start = lexer.start := by
  rw [start, behindTrivia_lowered, lowered, Cursor.position_map_toLower, start]

theorem endOfInput_lowered (lexer : Lexer) : lexer.lowered.endOfInput = lexer.endOfInput := by
  rw [endOfInput, behindTrivia_lowered, lowered, Cursor.position_map_toLower, byteLength_map_toLower, endOfInput]

/-- A step of the lexer does not notice the case of letters. -/
theorem nextToken_lowered (lexer : Lexer) :
    lexer.lowered.nextToken = (lexer.nextToken.1, lexer.nextToken.2.lowered) := by
  have hrest : (trivia lexer.lowered.rest).2 = (trivia lexer.rest).2.map Char.toLower := by
    rw [lowered, trivia, pieces_map_toLower]
    rfl
  cases h : (trivia lexer.rest).2 with
  | nil =>
    rw [h] at hrest
    rw [nextToken_of_nil hrest, nextToken_of_nil h, endOfInput_lowered, behindTrivia_lowered]
    rfl
  | cons c cs =>
    rw [h, List.map_cons] at hrest
    rw [nextToken_of_cons hrest, nextToken_of_cons h, start_lowered, behindTrivia_lowered, reading_toLower,
      locate_lowered, Reading.lowered, Cursor.advance_map_toLower]
    rfl

theorem Yields.lowered {lexer last : Lexer} {ts : List Lexeme} (h : Yields lexer ts last) :
    Yields lexer.lowered ts last.lowered := by
  induction h with
  | nil => exact .nil _
  | cons hnext ht _ ih =>
    refine .cons (by rw [nextToken_lowered, hnext]) ht ?_
    rw [nextToken_lowered]
    exact ih

theorem tokens_lowered (lexer : Lexer) : lexer.lowered.tokens = lexer.tokens := by
  obtain ⟨ts, last, hyields, hend⟩ := exists_yields lexer
  rw [hyields.lowered.tokens_eq, hyields.tokens_eq]
  rcases hend with ⟨stop, hnext, hstop⟩ | ⟨e, hnext⟩
  · rw [tokens_of_endOfInput hnext hstop, tokens_of_endOfInput (by rw [nextToken_lowered, hnext]) hstop]
  · rw [tokens_of_error hnext, tokens_of_error (by rw [nextToken_lowered, hnext])]

end Lexer

/-! ## Texts -/

theorem tokenize_of_map_toLower_eq {source other : String}
    (h : source.toList.map Char.toLower = other.toList.map Char.toLower) : tokenize source = tokenize other := by
  have hlexer : (Lexer.ofString source).lowered = (Lexer.ofString other).lowered := by
    simp [Lexer.ofString, Lexer.lowered, h]
  rw [tokenize, tokenize, ← Lexer.tokens_lowered, hlexer, Lexer.tokens_lowered]

/-- A run depends on its text only through the tokens. -/
theorem run_of_tokenize_eq {source other : String} (h : tokenize source = tokenize other) :
    Interpreter.program source = Interpreter.program other ∧
      Interpreter.expression source = Interpreter.expression other := by
  have htokens : Interpreter.readTokens source = Interpreter.readTokens other := by
    rw [Interpreter.readTokens, Interpreter.readTokens, h]
  rw [Interpreter.program, Interpreter.program, Interpreter.expression, Interpreter.expression, htokens]
  exact ⟨rfl, rfl⟩

/-- **The case of letters does not matter**: texts that differ in nothing else have the same tokens at the same places
or the same lexical fault, and runs of them report the same events and end with the same outcome or the same fault. -/
theorem run_of_differInCase (source other : String) (h : DifferInCase source other) :
    tokenize source = tokenize other ∧
      (Interpreter.program source = Interpreter.program other ∧
        Interpreter.expression source = Interpreter.expression other) ∧
      runProgram source = runProgram other ∧ evaluateExpression source = evaluateExpression other ∧
      (runProgram source).mapError Fault.message = (runProgram other).mapError Fault.message ∧
      (evaluateExpression source).mapError Fault.message = (evaluateExpression other).mapError Fault.message := by
  have htokens := tokenize_of_map_toLower_eq h.map_toLower_eq
  obtain ⟨hprogram, hexpression⟩ := run_of_tokenize_eq htokens
  have hrun : runProgram source = runProgram other := by rw [runProgram, runProgram, hprogram]
  have hvalue : evaluateExpression source = evaluateExpression other := by
    rw [evaluateExpression, evaluateExpression, hexpression]
  exact ⟨htokens, ⟨hprogram, hexpression⟩, hrun, hvalue, by rw [hrun], by rw [hvalue]⟩

/-- Reserved words, a name and a comment in other letters; the accented letter in the comment stays as it is. -/
theorem run_of_differInCase_mixed :
    let source := "PROGRAM Pr; VAR nUm: REAL; begin \x7b Éa \x7d\n NUM := 7 dIv nuMber eND."
    let other := "Program pR; var Num: real; BEGIN \x7b ÉA \x7d\n num := 7 DIV Number end."
    DifferInCase source other ∧ runProgram source = runProgram other ∧
      runProgram other = .error (.semantic (.undeclaredIdentifier "number" 2)) := by
  intro source other
  have hcase : DifferInCase source other := by
    unfold DifferInCase
    decide +kernel
  have hother : runProgram other = .error (.semantic (.undeclaredIdentifier "number" 2)) := by decide +kernel
  exact ⟨hcase, (run_of_differInCase source other hcase).2.2.1, hother⟩

end MiniPascal
