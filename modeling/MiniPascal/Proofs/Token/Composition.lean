import MiniPascal.Proofs.Token.Positions

/-!
# Texts in front of texts

No token goes on across a blank or a comment. So what is found in a text is found there as well when the text stands
between others, as long as the one behind it begins with trivia (`Separates`); only the places are counted on from what
stands before it (`Position.behind`).

* `tokenize_append_trivia`: the tokens of two texts with trivia between them are those of the first and of the second.
* `tokenize_append_of_error`: the first fault stays the first fault.
* `tokenize_composes`: the tokens of the whole, with all places counted from those of the second text alone.
-/

namespace MiniPascal

/-! ## Places behind a text -/

/-- A place of a text, as it is counted when `before` stands before the text. -/
def Position.behind (before : List Char) (p : Position) : Position where
  offset := byteLength before + p.offset
  line := before.count '\n' + p.line
  column := if p.line = 1 then (lastLine before).length + p.column else p.column

def Lexeme.behind (before : List Char) (t : Lexeme) : Lexeme :=
  ⟨t.token, t.position.behind before, byteLength before + t.stop⟩

def LexicalError.behind (before : List Char) (e : LexicalError) : LexicalError where
  fault := e.fault
  line := before.count '\n' + e.line
  column := if e.line = 1 then (lastLine before).length + e.column else e.column

/-- A token or a fault, as it is found when `before` stands before the text. -/
def Lexer.resultBehind (before : List Char) : Except LexicalError Lexeme → Except LexicalError Lexeme
  | .ok t => .ok (t.behind before)
  | .error e => .error (e.behind before)

namespace Position

@[simp] theorem behind_nil (p : Position) : p.behind [] = p := by
  simp [behind, byteLength]

theorem behind_ofText (before text : List Char) : (ofText text).behind before = ofText (before ++ text) := by
  by_cases htext : '\n' ∈ text
  · have hcount : text.count '\n' ≠ 0 := (List.count_pos_iff.mpr htext).ne'
    simp [behind, ofText, byteLength_append, lastLine_append, htext, hcount, Nat.add_left_comm]
  · have hcount : text.count '\n' = 0 := List.count_eq_zero.mpr htext
    simp [behind, ofText, byteLength_append, lastLine_append, lastLine_of_notMem htext, htext, hcount, Nat.add_comm,
      Nat.add_assoc, Nat.add_left_comm]

end Position

/-- How far a text was read, as it is counted when `before` stands before the text. -/
def Cursor.behind (before : List Char) (cursor : Cursor) : Cursor where
  offset := byteLength before + cursor.offset
  line := before.count '\n' + cursor.line
  lineStart := if cursor.line = 1 then byteLength (linesBefore before) else byteLength before + cursor.lineStart

theorem Cursor.behind_ofText (before text : List Char) : (ofText text).behind before = ofText (before ++ text) := by
  by_cases htext : '\n' ∈ text
  · have hcount : text.count '\n' ≠ 0 := (List.count_pos_iff.mpr htext).ne'
    simp [behind, ofText, byteLength_append, linesBefore_append, htext, hcount, Nat.add_left_comm]
  · have hcount : text.count '\n' = 0 := List.count_eq_zero.mpr htext
    simp [behind, ofText, byteLength_append, linesBefore_append, htext, hcount, Nat.add_comm]

theorem Cursor.behind_advance (before text : List Char) (cursor : Cursor) :
    (cursor.advance text).behind before = (cursor.behind before).advance text :=
  congrArg (fun offset => { cursor.behind before with offset := offset }) (Nat.add_assoc _ _ _).symm

theorem Lexeme.behind_nil : Lexeme.behind [] = id := by
  funext t
  simp [behind, byteLength]

theorem LexicalError.behind_nil (e : LexicalError) : e.behind [] = e := by
  simp [behind]

namespace Lexer

/-! ## Readings in front of a text -/

/-- The text is empty or begins with a blank or a comment, so that no token goes on with it. -/
def Separates (text : List Char) : Prop := ∀ c tail, text = c :: tail → isBlank c = true ∨ opensComment c = true

theorem separates_nil : Separates [] := fun _ _ h => by cases h

theorem IsTrivia.separates {skipped : List Char} (h : IsTrivia skipped) (hne : skipped ≠ []) (rest : List Char) :
    Separates (skipped ++ rest) := by
  intro c tail hsplit
  cases h with
  | nil => exact absurd rfl hne
  | blank hc _ =>
    cases hsplit
    exact .inl hc
  | comment _ _ =>
    cases hsplit
    exact .inr rfl

theorem Separates.ends_isWordPart {text : List Char} (h : Separates text) : Ends isWordPart text :=
  fun c tail htext => (of_blank_or_comment (h c tail htext)).1

theorem Separates.ends_isDigit {text : List Char} (h : Separates text) : Ends Char.isDigit text :=
  fun c tail htext => (of_blank_or_comment (h c tail htext)).2.1

theorem takeWhile_append_of_ends {p : Char → Bool} {more : List Char} (h : Ends p more) (text : List Char) :
    (text ++ more).takeWhile p = text.takeWhile p := by
  induction text with
  | nil =>
    cases more with
    | nil => rfl
    | cons c tail => simp [h c tail rfl]
  | cons c cs ih => by_cases hc : p c <;> simp [hc, ih]

theorem dropWhile_append_of_ends {p : Char → Bool} {more : List Char} (h : Ends p more) (text : List Char) :
    (text ++ more).dropWhile p = text.dropWhile p ++ more := by
  induction text with
  | nil =>
    cases more with
    | nil => rfl
    | cons c tail => simp [h c tail rfl]
  | cons c cs ih => by_cases hc : p c <;> simp [hc, ih]

/-- The same reading in front of a longer text. -/
def Reading.before (r : Reading) (more : List Char) : Reading := { r with rest := r.rest ++ more }

theorem readWord_append {more : List Char} (h : Separates more) (text : List Char) :
    readWord (text ++ more) = (readWord text).before more := by
  simp only [readWord, Reading.before, takeWhile_append_of_ends h.ends_isWordPart,
    dropWhile_append_of_ends h.ends_isWordPart]

theorem readNumber_of_fraction {text rest : List Char} {d : Char} (h : text.dropWhile Char.isDigit = '.' :: d :: rest)
    (hd : d.isDigit = true) :
    readNumber text = readReal (text.takeWhile Char.isDigit) ((d :: rest).takeWhile Char.isDigit)
      ((d :: rest).dropWhile Char.isDigit) := by
  simp only [readNumber, h, hd, if_true]

theorem readNumber_of_whole {text : List Char}
    (h : ∀ d rest, text.dropWhile Char.isDigit = '.' :: d :: rest → d.isDigit = false) :
    readNumber text = readInteger (text.takeWhile Char.isDigit) (text.dropWhile Char.isDigit) := by
  unfold readNumber
  dsimp only
  split
  next d rest hpoint => rw [if_neg (by rw [h d rest hpoint]; nofun), hpoint]
  next => rfl

/-- A point at the end of a text is still not followed by a digit. -/
theorem readNumber_append_separated {more : List Char} (h : Separates more) (text : List Char) :
    readNumber (text ++ more) = (readNumber text).before more := by
  have hdigits := h.ends_isDigit
  have hdrop := dropWhile_append_of_ends hdigits text
  by_cases hpoint : ∃ d rest, text.dropWhile Char.isDigit = '.' :: d :: rest ∧ d.isDigit = true
  · obtain ⟨d, rest, hrest, hd⟩ := hpoint
    rw [hrest, List.cons_append, List.cons_append] at hdrop
    rw [readNumber_of_fraction hdrop hd, readNumber_of_fraction hrest hd, ← List.cons_append,
      takeWhile_append_of_ends hdigits, takeWhile_append_of_ends hdigits, dropWhile_append_of_ends hdigits]
    rfl
  · have hwhole : ∀ d rest, text.dropWhile Char.isDigit = '.' :: d :: rest → d.isDigit = false := by
      intro d rest hrest
      exact Bool.eq_false_iff.mpr fun hd => hpoint ⟨d, rest, hrest, hd⟩
    have hmore : ∀ d rest, (text ++ more).dropWhile Char.isDigit = '.' :: d :: rest → d.isDigit = false := by
      intro d rest hrest
      rw [hdrop] at hrest
      match hleft : text.dropWhile Char.isDigit, hrest with
      | [], hrest => exact absurd rfl (of_blank_or_comment (h _ _ hrest)).2.2.1
      | [c], hrest =>
        cases hrest
        exact hdigits d rest rfl
      | c :: e :: tail, hrest =>
        cases hrest
        exact hwhole d tail hleft
    rw [readNumber_of_whole hmore, readNumber_of_whole hwhole, hdrop, takeWhile_append_of_ends hdigits]
    rfl

/-- A single character, if the text starts like no other token. -/
theorem reading_of_single {c : Char} {cs : List Char} (hdigit : c.isDigit = false) (hstart : isWordStart c = false)
    (hcomment : opensComment c = false) (hassign : c = ':' → ∀ tail, cs ≠ '=' :: tail) :
    reading c cs = match Mark.ofChar? c with
      | some m => ⟨[c], .ok (.mark m), cs⟩
      | none => ⟨[c], .error (.unexpectedCharacter c), cs⟩ := by
  unfold reading
  rw [hdigit, hstart, hcomment]
  simp only [Bool.false_eq_true, if_false]
  split
  next tail => exact absurd rfl (hassign rfl tail)
  next => rfl

/-- A reading is the same in front of a longer text, unless it is an unclosed comment. -/
theorem reading_append_separated {c : Char} {more : List Char} (h : Separates more) (hcomment : opensComment c = false)
    (cs : List Char) : reading c (cs ++ more) = (reading c cs).before more := by
  by_cases hdigit : c.isDigit = true
  · simpa [reading, hdigit] using readNumber_append_separated h (c :: cs)
  by_cases hstart : isWordStart c = true
  · simpa [reading, hdigit, hstart] using readWord_append h (c :: cs)
  rw [Bool.not_eq_true] at hdigit hstart
  by_cases hassign : c = ':' ∧ ∃ tail, cs = '=' :: tail
  · obtain ⟨rfl, tail, rfl⟩ := hassign
    rfl
  · have hsingle : c = ':' → ∀ tail, cs ≠ '=' :: tail := fun hc tail hcs => hassign ⟨hc, tail, hcs⟩
    have hmore : c = ':' → ∀ tail, cs ++ more ≠ '=' :: tail := by
      intro hc tail hcs
      cases cs with
      | nil => exact absurd rfl (of_blank_or_comment (h _ _ hcs)).2.2.2
      | cons d ds =>
        cases hcs
        exact hsingle hc ds rfl
    rw [reading_of_single hdigit hstart hcomment hmore, reading_of_single hdigit hstart hcomment hsingle]
    cases Mark.ofChar? c <;> rfl

/-! ## Trivia in front of a text -/

theorem trivia_of_settled {remaining : List Char} (h : Settled remaining) : trivia remaining = ([], remaining) := by
  have hsplit := trivia_append remaining
  have hnone := h _ _ hsplit.symm (isTrivia_trivia remaining)
  rw [hnone, List.nil_append] at hsplit
  exact Prod.ext hnone hsplit

theorem trivia_blank {c : Char} (hc : isBlank c = true) (cs : List Char) :
    trivia (c :: cs) = (c :: (trivia cs).1, (trivia cs).2) := by
  unfold trivia
  by_cases hn : c = '\n'
  · rw [pieces, if_pos hn, hn]
    rfl
  · rw [pieces, if_neg hn, if_pos hc]
    rfl

theorem trivia_comment {body : List Char} (hbody : '\x7d' ∉ body) (tail : List Char) :
    trivia ('\x7b' :: (body ++ '\x7d' :: tail)) =
      ('\x7b' :: (body ++ '\x7d' :: (trivia tail).1), (trivia tail).2) := by
  have hopen : ∀ c ∈ body, (!closesComment c) = true := by
    intro c hc
    rw [Bool.not_eq_true', ← Bool.not_eq_true, closesComment_iff]
    exact fun h => hbody (h ▸ hc)
  have htake : (body ++ '\x7d' :: tail).takeWhile (!closesComment ·) = body := by
    rw [List.takeWhile_append_of_pos hopen, List.takeWhile_cons_of_neg (by decide), List.append_nil]
  have hdrop : (body ++ '\x7d' :: tail).dropWhile (!closesComment ·) = '\x7d' :: tail := by
    rw [List.dropWhile_append_of_pos hopen, List.dropWhile_cons_of_neg (by decide)]
  unfold trivia
  rw [pieces, if_neg (by decide), if_neg (by decide), if_pos (by decide), htake]
  split
  next hnil => rw [hdrop] at hnil; cases hnil
  next hcons =>
    rw [hdrop] at hcons
    cases hcons
    simp [Piece.text]

/-- All trivia in front is skipped. -/
theorem trivia_skip {skipped : List Char} (h : IsTrivia skipped) (rest : List Char) :
    trivia (skipped ++ rest) = (skipped ++ (trivia rest).1, (trivia rest).2) := by
  induction h with
  | nil => rfl
  | blank hc _ ih => rw [List.cons_append, trivia_blank hc, ih]; rfl
  | comment hbody _ ih =>
    rw [List.cons_append, List.append_assoc, List.cons_append, trivia_comment hbody, ih]
    simp

theorem IsTrivia.append {first second : List Char} (h : IsTrivia first) (hsecond : IsTrivia second) :
    IsTrivia (first ++ second) := by
  induction h with
  | nil => exact hsecond
  | blank hc _ ih => exact .blank hc ih
  | comment hbody _ ih =>
    rw [List.cons_append, List.append_assoc, List.cons_append]
    exact .comment hbody ih

theorem isTrivia_of_trivia_nil {text : List Char} (h : (trivia text).2 = []) : IsTrivia text := by
  have hsplit := trivia_append text
  rw [h, List.append_nil] at hsplit
  exact hsplit ▸ isTrivia_trivia text

/-- What is skipped is the same in front of a longer text, unless that closes a comment. -/
theorem trivia_append_of_cons {text cs : List Char} {c : Char} (h : (trivia text).2 = c :: cs) {more : List Char}
    (hopen : c = '\x7b' → '\x7d' ∉ more) : trivia (text ++ more) = ((trivia text).1, c :: (cs ++ more)) := by
  have hsettled := settled_trivia text
  rw [h] at hsettled
  have hmore : Settled (c :: (cs ++ more)) := by
    refine settled_cons hsettled.isBlank_eq_false fun hc => ?_
    subst hc
    rw [List.mem_append]
    exact not_or.mpr ⟨hsettled.notMem, hopen rfl⟩
  have htext : text ++ more = (trivia text).1 ++ (c :: (cs ++ more)) := by
    rw [← List.cons_append, ← h, ← List.append_assoc, trivia_append]
  rw [htext, trivia_skip (isTrivia_trivia text), trivia_of_settled hmore, List.append_nil]

/-! ## Lexers between texts -/

/-- The lexer as it stands when `before` is put before its text and `more` behind it. -/
def within (before more : List Char) (lexer : Lexer) : Lexer where
  source := before ++ lexer.source ++ more
  rest := lexer.rest ++ more
  cursor := lexer.cursor.behind before
  finished := lexer.finished

theorem locate_behind (r : Reading) (p : Position) (before more : List Char) :
    (r.before more).locate (p.behind before) = resultBehind before (r.locate p) := by
  unfold Reading.locate Reading.before
  dsimp only
  cases r.result with
  | ok token => simp [resultBehind, Lexeme.behind, Position.behind, Nat.add_assoc]
  | error fault => rfl

section

variable {consumed cs : List Char} {lexer : Lexer} {c : Char}

theorem Counted.within (h : Counted consumed lexer) (before more : List Char) :
    Counted (before ++ consumed) (lexer.within before more) where
  split := by simp [Lexer.within, h.split]
  cursor := by rw [Lexer.within, h.cursor, Cursor.behind_ofText]

theorem behindTrivia_within (h : Counted consumed lexer) (hrest : (trivia lexer.rest).2 = c :: cs) {more : List Char}
    (hopen : c = '\x7b' → '\x7d' ∉ more) (before : List Char) :
    (lexer.within before more).behindTrivia = lexer.behindTrivia.behind before := by
  rw [(h.within before more).behindTrivia, h.behindTrivia, Cursor.behind_ofText, within,
    trivia_append_of_cons hrest hopen, List.append_assoc]

theorem start_within (h : Counted consumed lexer) (hrest : (trivia lexer.rest).2 = c :: cs) {more : List Char}
    (hopen : c = '\x7b' → '\x7d' ∉ more) (before : List Char) :
    (lexer.within before more).start = lexer.start.behind before := by
  rw [(h.within before more).start, h.start, Position.behind_ofText, within, trivia_append_of_cons hrest hopen,
    List.append_assoc]

/-- A token or a fault is found between other texts as it is found alone, and so is what follows it. -/
theorem nextToken_within (h : Counted consumed lexer) (hrest : (trivia lexer.rest).2 = c :: cs)
    (hcomment : opensComment c = false) {more : List Char} (hmore : Separates more) (before : List Char) :
    (lexer.within before more).nextToken =
      (resultBehind before lexer.nextToken.1, lexer.nextToken.2.within before more) := by
  have hopen : c = '\x7b' → '\x7d' ∉ more := by
    intro hc
    rw [opensComment_iff.mpr hc] at hcomment
    cases hcomment
  have hwithin : (trivia (lexer.within before more).rest).2 = c :: (cs ++ more) := by
    rw [within, trivia_append_of_cons hrest hopen]
  rw [nextToken_of_cons hwithin, nextToken_of_cons hrest, start_within h hrest hopen,
    behindTrivia_within h hrest hopen, reading_append_separated hmore hcomment, locate_behind]
  simp only [within, Reading.before, Cursor.behind_advance]

/-- An unclosed comment is found between other texts if none of them closes it. -/
theorem nextToken_within_unclosed (h : Counted consumed lexer) (hrest : (trivia lexer.rest).2 = '\x7b' :: cs)
    {more : List Char} (hmore : '\x7d' ∉ more) (before : List Char) :
    (lexer.within before more).nextToken.1 = resultBehind before lexer.nextToken.1 := by
  have hwithin : (trivia (lexer.within before more).rest).2 = '\x7b' :: (cs ++ more) := by
    rw [within, trivia_append_of_cons hrest fun _ => hmore]
  rw [nextToken_of_cons hwithin, nextToken_of_cons hrest, start_within h hrest fun _ => hmore]
  rfl

end

/-! ## What the next token is -/

theorem Finds.nil_of_endOfInput {remaining rest : List Char} (h : Finds remaining (.ok .endOfInput) rest) :
    remaining = [] := by
  cases h with
  | endOfInput => rfl
  | longest _ hmakes => cases hmakes

theorem trivia_of_endOfInput {lexer : Lexer} {t : Lexeme} (h : lexer.nextToken.1 = .ok t)
    (ht : t.token = .endOfInput) : (trivia lexer.rest).2 = [] := by
  have hfinds := finds_nextToken lexer
  rw [h, verdict, ht] at hfinds
  exact hfinds.nil_of_endOfInput

theorem trivia_of_token {lexer : Lexer} {t : Lexeme} (h : lexer.nextToken.1 = .ok t) (ht : t.token ≠ .endOfInput) :
    ∃ c cs, (trivia lexer.rest).2 = c :: cs ∧ opensComment c = false := by
  cases hrest : (trivia lexer.rest).2 with
  | nil =>
    rw [nextToken_of_nil hrest] at h
    cases h
    exact absurd rfl ht
  | cons c cs =>
    refine ⟨c, cs, rfl, ?_⟩
    by_contra hc
    rw [Bool.not_eq_false, opensComment_iff] at hc
    subst hc
    rw [nextToken_of_cons hrest] at h
    cases h

theorem trivia_of_error {lexer : Lexer} {e : LexicalError} (h : lexer.nextToken.1 = .error e) :
    ∃ c cs, (trivia lexer.rest).2 = c :: cs := by
  cases hrest : (trivia lexer.rest).2 with
  | nil =>
    rw [nextToken_of_nil hrest] at h
    cases h
  | cons c cs => exact ⟨c, cs, rfl⟩

/-- A fault is found between other texts as it is found alone, if what follows neither goes on with a token nor closes
a comment. -/
theorem nextToken_within_of_error {consumed : List Char} {lexer : Lexer} (hcounted : Counted consumed lexer)
    {e : LexicalError} (h : lexer.nextToken.1 = .error e) {more : List Char} (hmore : Separates more)
    (hclose : '\x7d' ∉ more) (before : List Char) :
    (lexer.within before more).nextToken.1 = .error (e.behind before) := by
  obtain ⟨c, cs, hrest⟩ := trivia_of_error h
  -- an unclosed comment takes up all that follows, every other fault ends before it
  by_cases hcomment : opensComment c = true
  · obtain rfl := opensComment_iff.mp hcomment
    rw [nextToken_within_unclosed hcounted hrest hclose, h, resultBehind]
  · rw [Bool.not_eq_true] at hcomment
    rw [nextToken_within hcounted hrest hcomment hmore, h, resultBehind]

/-! ## Tokens one after another -/

theorem tokens_of_error {lexer : Lexer} {e : LexicalError} (h : lexer.nextToken.1 = .error e) :
    lexer.tokens = .error e := by
  rw [tokens]
  split
  next hnext =>
    rw [hnext] at h
    cases h
    rfl
  next hnext => rw [hnext] at h; cases h

theorem tokens_of_endOfInput {lexer : Lexer} {t : Lexeme} (h : lexer.nextToken.1 = .ok t)
    (ht : t.token = .endOfInput) : lexer.tokens = .ok [t] := by
  rw [tokens]
  split
  next hnext => rw [hnext] at h; cases h
  next hnext =>
    rw [hnext] at h
    cases h
    rw [dif_pos ht]

theorem tokens_of_token {lexer : Lexer} {t : Lexeme} (h : lexer.nextToken.1 = .ok t) (ht : t.token ≠ .endOfInput) :
    lexer.tokens = lexer.nextToken.2.tokens.map (t :: ·) := by
  rw [tokens]
  split
  next hnext => rw [hnext] at h; cases h
  next hnext =>
    rw [hnext] at h ⊢
    cases h
    rw [dif_neg ht]
    split
    next hrest => rw [hrest]; rfl
    next hrest => rw [hrest]; rfl

/-- The lexer gives the tokens `ts`, none of which is the end of input, and stands as `last` then. -/
inductive Yields : Lexer → List Lexeme → Lexer → Prop
  | nil (lexer : Lexer) : Yields lexer [] lexer
  | cons {lexer last : Lexer} {t : Lexeme} {ts : List Lexeme} : lexer.nextToken.1 = .ok t → t.token ≠ .endOfInput →
      Yields lexer.nextToken.2 ts last → Yields lexer (t :: ts) last

/-- In the end the lexer comes to the end of input or to a fault. -/
theorem exists_yields (lexer : Lexer) :
    ∃ ts last, Yields lexer ts last ∧
      ((∃ stop, last.nextToken.1 = .ok stop ∧ stop.token = .endOfInput) ∨ ∃ e, last.nextToken.1 = .error e) := by
  induction hlength : lexer.rest.length using Nat.strongRecOn generalizing lexer with
  | ind n ih =>
    cases hnext : lexer.nextToken.1 with
    | error e => exact ⟨[], lexer, .nil lexer, .inr ⟨e, hnext⟩⟩
    | ok t =>
      by_cases ht : t.token = .endOfInput
      · exact ⟨[], lexer, .nil lexer, .inl ⟨t, hnext, ht⟩⟩
      · -- a token takes up characters, so fewer are left behind it
        have hlt := @length_nextToken_rest_lt lexer (by simp [hnext, isLast, ht])
        rw [hlength] at hlt
        obtain ⟨ts, last, hyields, hend⟩ := ih _ hlt lexer.nextToken.2 rfl
        exact ⟨t :: ts, last, .cons hnext ht hyields, hend⟩

namespace Yields

variable {lexer last : Lexer} {ts : List Lexeme}

theorem tokens_eq (h : Yields lexer ts last) : lexer.tokens = last.tokens.map (ts ++ ·) := by
  induction h with
  | nil lexer => cases lexer.tokens <;> rfl
  | cons hnext ht _ ih =>
    rw [tokens_of_token hnext ht, ih]
    cases Lexer.tokens _ <;> rfl

theorem token_ne_endOfInput (h : Yields lexer ts last) : ∀ t ∈ ts, t.token ≠ .endOfInput := by
  induction h with
  | nil => exact fun _ h => by cases h
  | cons _ ht _ ih => exact List.forall_mem_cons.mpr ⟨ht, ih⟩

theorem finished_eq (h : Yields lexer ts last) : last.finished = lexer.finished := by
  induction h with
  | nil => rfl
  | @cons lexer _ _ _ _ _ _ ih =>
    rw [ih]
    cases hrest : (trivia lexer.rest).2 with
    | nil => rw [nextToken_of_nil hrest]
    | cons c cs => rw [nextToken_of_cons hrest]

theorem source_eq (h : Yields lexer ts last) : last.source = lexer.source := by
  induction h with
  | nil => rfl
  | cons _ _ _ ih => rw [ih, source_nextToken]

end Yields

/-- The line of a token is one more than the number of newlines before it. -/
theorem Counted.line_of_nextToken {consumed : List Char} {lexer : Lexer} {t : Lexeme} (h : Counted consumed lexer)
    (ht : lexer.nextToken.1 = .ok t) : 1 ≤ t.line ∧ t.line ≤ 1 + lexer.source.count '\n' := by
  have hline : t.line = 1 + (consumed ++ (trivia lexer.rest).1).count '\n' := by
    rw [Lexeme.line, h.position_of_nextToken ht, h.start, Position.ofText]
  have hcount := (List.sublist_append_left (consumed ++ (trivia lexer.rest).1) (trivia lexer.rest).2).count_le '\n'
  rw [← h.split_trivia] at hcount
  omega

theorem Counted.of_token {consumed : List Char} {lexer : Lexer} {t : Lexeme} (h : Counted consumed lexer)
    (ht : lexer.nextToken.1 = .ok t) : ∃ more, Counted more lexer.nextToken.2 := by
  apply h.next
  rw [ht]
  nofun

theorem Counted.yields {consumed : List Char} {lexer last : Lexer} {ts : List Lexeme} (h : Counted consumed lexer)
    (hyields : Yields lexer ts last) : ∃ more, Counted more last := by
  induction hyields generalizing consumed with
  | nil => exact ⟨consumed, h⟩
  | cons hnext _ _ ih =>
    obtain ⟨more, hmore⟩ := h.of_token hnext
    exact ih hmore

/-- Tokens are found between other texts as they are found alone. -/
theorem Yields.within {consumed : List Char} {lexer last : Lexer} {ts : List Lexeme}
    (h : Yields lexer ts last) (hcounted : Counted consumed lexer) {more : List Char} (hmore : Separates more)
    (before : List Char) :
    Yields (lexer.within before more) (ts.map (Lexeme.behind before)) (last.within before more) := by
  induction h generalizing consumed with
  | nil => exact .nil _
  | cons hnext ht _ ih =>
    obtain ⟨c, cs, hrest, hcomment⟩ := trivia_of_token hnext ht
    obtain ⟨next, hcounted'⟩ := hcounted.of_token hnext
    have hwithin := nextToken_within hcounted hrest hcomment hmore before
    refine .cons (by rw [hwithin, hnext]; rfl) ht ?_
    rw [hwithin]
    exact ih hcounted'

/-! ## Texts one after another -/

/-- The tokens of a text or its fault, as they are found when `before` stands before the text. -/
def tokensBehind (before : List Char) : Except LexicalError (List Lexeme) → Except LexicalError (List Lexeme)
  | .ok ts => .ok (ts.map (Lexeme.behind before))
  | .error e => .error (e.behind before)

theorem nextToken_within_nil {consumed : List Char} {lexer : Lexer} (hcounted : Counted consumed lexer) {t : Lexeme}
    (h : lexer.nextToken.1 = .ok t) (ht : t.token = .endOfInput) (before : List Char) :
    (lexer.within before []).nextToken.1 = .ok (t.behind before) := by
  have hrest := trivia_of_endOfInput h ht
  have hsame : (lexer.within before []).rest = lexer.rest := List.append_nil _
  have hwithin : (trivia (lexer.within before []).rest).2 = [] := by rwa [hsame]
  have hstart : (lexer.within before []).start = lexer.start.behind before := by
    rw [(hcounted.within before []).start, hcounted.start, Position.behind_ofText, hsame, List.append_assoc]
  rw [nextToken_of_nil hrest, hcounted.endOfInput_of_nil hrest] at h
  cases h
  rw [nextToken_of_nil hwithin, (hcounted.within before []).endOfInput_of_nil hwithin, hstart]
  rfl

/-- Counting from further on moves the places and changes nothing else. -/
theorem tokens_within {consumed : List Char} {lexer : Lexer} (h : Counted consumed lexer) (before : List Char) :
    (lexer.within before []).tokens = tokensBehind before lexer.tokens := by
  obtain ⟨ts, last, hyields, hend⟩ := exists_yields lexer
  obtain ⟨_, hcounted⟩ := h.yields hyields
  rw [(hyields.within h separates_nil before).tokens_eq, hyields.tokens_eq]
  rcases hend with ⟨stop, hnext, hstop⟩ | ⟨e, hnext⟩
  · have hlast := nextToken_within_nil hcounted hnext hstop before
    rw [tokens_of_endOfInput hnext hstop, tokens_of_endOfInput hlast hstop]
    simp [tokensBehind, Except.map]
  · have hfault := nextToken_within_of_error hcounted hnext separates_nil List.not_mem_nil before
    rw [tokens_of_error hnext, tokens_of_error hfault]
    rfl

theorem tokens_of_nextToken_eq {lexer other : Lexer} (h : lexer.nextToken = other.nextToken) :
    lexer.tokens = other.tokens := by
  cases hnext : other.nextToken.1 with
  | error e => rw [tokens_of_error hnext, tokens_of_error (h ▸ hnext)]
  | ok t =>
    by_cases ht : t.token = .endOfInput
    · rw [tokens_of_endOfInput hnext ht, tokens_of_endOfInput (h ▸ hnext) ht]
    · rw [tokens_of_token hnext ht, tokens_of_token (h ▸ hnext) ht, h]

/-- Lexers in one text find the same if only trivia stands between them. -/
theorem Counted.tokens_skip {consumed skipped : List Char} {lexer other : Lexer} (h : Counted consumed lexer)
    (hother : Counted (consumed ++ skipped) other) (hsource : lexer.source = other.source)
    (hfinished : lexer.finished = other.finished) (hskipped : IsTrivia skipped) : lexer.tokens = other.tokens := by
  have hrest : lexer.rest = skipped ++ other.rest := by
    have hsplit := h.split.symm.trans (hsource.trans hother.split)
    rw [List.append_assoc] at hsplit
    exact List.append_cancel_left hsplit
  have htrivia : trivia lexer.rest = (skipped ++ (trivia other.rest).1, (trivia other.rest).2) := by
    rw [hrest, trivia_skip hskipped]
  have hcursor : lexer.behindTrivia = other.behindTrivia := by
    rw [h.behindTrivia, hother.behindTrivia, htrivia, List.append_assoc]
  apply tokens_of_nextToken_eq
  cases hnext : (trivia other.rest).2 with
  | nil =>
    rw [nextToken_of_nil hnext, nextToken_of_nil (by rw [htrivia, hnext]), Lexer.endOfInput, Lexer.endOfInput,
      hcursor, hsource, hfinished]
  | cons c cs =>
    rw [nextToken_of_cons hnext, nextToken_of_cons (by rw [htrivia, hnext]), Lexer.start, Lexer.start, hcursor,
      hsource, hfinished]

theorem ofString_append (source more : String) :
    ofString (source ++ more) = (ofString source).within [] more.toList := by
  rw [ofString, String.toList_append]
  rfl

end Lexer

open Lexer

/-- A text whose tokens can be read ends with the only end of input. -/
theorem exists_yields_of_tokenize {source : String} {all : List Lexeme} (h : tokenize source = .ok all) :
    ∃ ts last stop, Yields (ofString source) ts last ∧ last.nextToken.1 = .ok stop ∧ stop.token = .endOfInput ∧
      all = ts ++ [stop] := by
  obtain ⟨ts, last, hyields, hend⟩ := exists_yields (ofString source)
  rw [tokenize, hyields.tokens_eq] at h
  rcases hend with ⟨stop, hnext, hstop⟩ | ⟨e, hnext⟩
  · rw [tokens_of_endOfInput hnext hstop] at h
    cases h
    exact ⟨ts, last, stop, hyields, hnext, hstop, rfl⟩
  · rw [tokens_of_error hnext] at h
    cases h

/-- Tokens are counted from line 1, and none stands behind the last line. -/
theorem line_of_yields {consumed : List Char} {lexer last : Lexer} {ts : List Lexeme}
    (hcounted : Counted consumed lexer) (h : Yields lexer ts last) :
    ∀ t ∈ ts, 1 ≤ t.line ∧ t.line ≤ 1 + lexer.source.count '\n' := by
  induction h generalizing consumed with
  | nil => nofun
  | @cons lexer _ _ _ hnext _ _ ih =>
    obtain ⟨more, hmore⟩ := hcounted.of_token hnext
    rw [source_nextToken] at ih
    exact List.forall_mem_cons.mpr ⟨hcounted.line_of_nextToken hnext, ih hmore⟩

theorem line_of_tokenize {source : String} {all : List Lexeme} (h : tokenize source = .ok all) :
    ∀ t ∈ all, 1 ≤ t.line ∧ t.line ≤ 1 + source.toList.count '\n' := by
  obtain ⟨ts, last, stop, hyields, hnext, -, rfl⟩ := exists_yields_of_tokenize h
  obtain ⟨consumed, hcounted⟩ := Counted.yields (.ofString source) hyields
  have hts := line_of_yields (.ofString source) hyields
  have hlast := hcounted.line_of_nextToken hnext
  rw [hyields.source_eq] at hlast
  exact List.forall_mem_append.mpr ⟨hts, List.forall_mem_singleton.mpr hlast⟩

/-- With trivia between two texts, the tokens of the second follow those of the first. -/
theorem tokenize_append_trivia {source : String} {ts : List Lexeme} {stop : Lexeme}
    (h : tokenize source = .ok (ts ++ [stop])) {skipped : List Char} (htrivia : IsTrivia skipped)
    (hne : skipped ≠ []) (next : String) :
    tokenize (source ++ String.ofList skipped ++ next) =
      (tokensBehind (source.toList ++ skipped) (tokenize next)).map (ts ++ ·) := by
  obtain ⟨ts', last, stop', hyields, hnext, hstop, hall⟩ := exists_yields_of_tokenize h
  obtain ⟨rfl, -⟩ := List.append_inj' hall rfl
  obtain ⟨consumed, hcounted⟩ := Counted.yields (.ofString source) hyields
  have hlast := isTrivia_of_trivia_nil (trivia_of_endOfInput hnext hstop)
  have hwithin := hyields.within (.ofString source) (htrivia.separates hne next.toList) []
  -- what the first text leaves is trivia too, and is skipped together with the trivia between the texts
  have hrest : (last.within [] (skipped ++ next.toList)).tokens =
      ((ofString next).within (source.toList ++ skipped) []).tokens := by
    have hsource : last.source = source.toList := hyields.source_eq
    have hconsumed : source.toList ++ skipped ++ [] = [] ++ consumed ++ (last.rest ++ skipped) := by
      simp [← hsource, hcounted.split]
    have hnext := (Counted.ofString next).within (source.toList ++ skipped) []
    rw [hconsumed] at hnext
    refine (hcounted.within [] _).tokens_skip hnext ?_ hyields.finished_eq (hlast.append htrivia)
    simp [Lexer.within, hsource, ofString]
  rw [tokenize, String.append_assoc, ofString_append, String.toList_append, String.toList_ofList, hwithin.tokens_eq,
    hrest, tokens_within (.ofString next)]
  simp only [Lexeme.behind_nil, List.map_id, tokenize]

/-- A fault stays the first one if what follows neither goes on with a token nor closes a comment. -/
theorem tokenize_append_of_error {source : String} {e : LexicalError} (h : tokenize source = .error e) {more : String}
    (hmore : Separates more.toList) (hclose : '\x7d' ∉ more.toList) : tokenize (source ++ more) = .error e := by
  obtain ⟨ts, last, hyields, hend⟩ := exists_yields (ofString source)
  obtain ⟨_, hcounted⟩ := Counted.yields (.ofString source) hyields
  have hwithin := hyields.within (.ofString source) hmore []
  rw [tokenize, hyields.tokens_eq] at h
  rcases hend with ⟨stop, hnext, hstop⟩ | ⟨e', hnext⟩
  · rw [tokens_of_endOfInput hnext hstop] at h
    cases h
  · have hfault := nextToken_within_of_error hcounted hnext hmore hclose []
    rw [tokens_of_error hnext] at h
    cases h
    rw [tokenize, ofString_append, hwithin.tokens_eq, tokens_of_error hfault, LexicalError.behind_nil]
    rfl

theorem filter_of_tokenize {source : String} {all : List Lexeme} (h : tokenize source = .ok all) :
    ∃ stop, all = all.filter (·.token ≠ .endOfInput) ++ [stop] := by
  obtain ⟨ts, last, stop, hyields, -, hstop, rfl⟩ := exists_yields_of_tokenize h
  have hts : ts.filter (·.token ≠ .endOfInput) = ts :=
    List.filter_eq_self.mpr fun t ht => decide_eq_true (hyields.token_ne_endOfInput t ht)
  refine ⟨stop, ?_⟩
  rw [List.filter_append, hts, List.filter_cons_of_neg (by simp [hstop]), List.filter_nil, List.append_nil]

/-- **Lexing composes across trivia.** The tokens of the first text, without its end of input, are followed by those of
the second one. Spans move by the bytes before it and lines by the newlines; columns move only on its first line, by
the characters that stand before it there. A fault of the second text moves in the same way. -/
theorem tokenize_composes {first between : String} {all : List Lexeme} (h : tokenize first = .ok all)
    (htrivia : IsTrivia between.toList) (hne : between ≠ "") (second : String) :
    let before := first ++ between
    let newlines := before.toList.count '\n'
    let indent (line : Nat) := if line = 1 then (lastLine before.toList).length else 0
    tokenize (first ++ between ++ second) = match tokenize second with
      | .ok more => .ok (all.filter (·.token ≠ .endOfInput) ++ more.map fun t =>
          { token := t.token
            position :=
              { offset := before.utf8ByteSize + t.position.offset
                line := newlines + t.position.line
                column := indent t.position.line + t.position.column }
            stop := before.utf8ByteSize + t.stop })
      | .error e => .error
          { fault := e.fault
            line := newlines + e.line
            column := indent e.line + e.column } := by
  intro before newlines indent
  obtain ⟨stop, hall⟩ := filter_of_tokenize h
  rw [hall] at h
  have hskipped : between.toList ≠ [] := mt String.toList_eq_nil_iff.mp hne
  have hcomposed := tokenize_append_trivia h htrivia hskipped second
  have hcolumn (line column : Nat) : (if line = 1 then (lastLine before.toList).length + column else column) =
      indent line + column := by
    by_cases hline : line = 1 <;> simp [indent, hline]
  rw [String.ofList_toList, ← String.toList_append] at hcomposed
  rw [hcomposed]
  cases tokenize second with
  | error e =>
    change Except.error (e.behind before.toList) = _
    rw [LexicalError.behind, hcolumn]
  | ok more =>
    have hbehind : Lexeme.behind before.toList = fun t =>
        ⟨t.token, ⟨before.utf8ByteSize + t.position.offset, newlines + t.position.line,
          indent t.position.line + t.position.column⟩, before.utf8ByteSize + t.stop⟩ := by
      funext t
      rw [Lexeme.behind, Position.behind, byteLength_toList, hcolumn]
    change Except.ok (_ ++ more.map (Lexeme.behind before.toList)) = _
    rw [hbehind]

/-- A number with a point behind it and a comment of two lines at the seam. -/
theorem tokenize_composes_seam :
    let first := "x:\n1."
    let between := "\x7bé\n\x7d "
    let all := (tokenize first).toOption.getD []
    (tokenize first = .ok all ∧ IsTrivia between.toList ∧ between ≠ "") ∧
      tokenize (first ++ between ++ "5\n:") = .ok (all.filter (·.token ≠ .endOfInput) ++
        [⟨.integer 5, ⟨11, 3, 3⟩, 12⟩, ⟨.mark .colon, ⟨13, 4, 1⟩, 14⟩, ⟨.endOfInput, ⟨14, 4, 2⟩, 14⟩]) ∧
      tokenize (first ++ between ++ "5?") = .error ⟨.unexpectedCharacter '?', 3, 4⟩ := by
  intro first between all
  have hfirst : tokenize first = .ok all := by decide +kernel
  have htrivia : IsTrivia between.toList := by
    have hbetween : between.toList = '\x7b' :: (['é', '\n'] ++ '\x7d' :: [' ']) := by decide +kernel
    rw [hbetween]
    exact .comment (by decide) (.blank (by decide) .nil)
  have hne : between ≠ "" := by decide
  refine ⟨⟨hfirst, htrivia, hne⟩, ?_, ?_⟩
  · exact (tokenize_composes hfirst htrivia hne "5\n:").trans (by decide +kernel)
  · exact (tokenize_composes hfirst htrivia hne "5?").trans (by decide +kernel)

end MiniPascal
