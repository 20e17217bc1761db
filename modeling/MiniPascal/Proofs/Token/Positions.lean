import MiniPascal.Proofs.Position
import MiniPascal.Proofs.Token.LongestMatch

/-!
# True positions

The lexer keeps the line and the byte where it starts, and moves them on when it skips a newline or a comment
(`Cursor.skip`). No token and no other fault than an unclosed comment holds a newline (`Lexer.newline_notMem_reading`).
So up to an unclosed comment the cursor is that of the text taken up, trivia, tokens and faults alike
(`Lexer.Counted`); the newlines of an unclosed comment are left out, behind which nothing but the end of input is found.

* `Lexer.nextToken_position`: every token and every fault carries the line and the column of the place where it starts.
-/

namespace MiniPascal

/-! ## Skipping -/

/-- A piece of trivia is passed like any text; a blank on the line must be no newline. -/
theorem Cursor.skip_ofText {piece : Lexer.Piece} (h : ∀ c, piece = .blank c → c ≠ '\n') (before : List Char) :
    (ofText before).skip piece = ofText (before ++ piece.text) := by
  cases piece with
  | blank c =>
    have hc : '\n' ∉ [c] := fun hmem => h c rfl (List.mem_singleton.mp hmem).symm
    exact advance_ofText hc before
  | newline => exact newline_ofText before
  | comment text => exact comment_ofText before text

theorem Cursor.foldl_skip_ofText {skipped : List Lexer.Piece} (h : ∀ c, .blank c ∈ skipped → c ≠ '\n')
    (before : List Char) :
    skipped.foldl skip (ofText before) = ofText (before ++ skipped.flatMap Lexer.Piece.text) := by
  induction skipped generalizing before with
  | nil => rw [List.foldl_nil, List.flatMap_nil, List.append_nil]
  | cons piece skipped ih =>
    have hpiece : ∀ c, piece = .blank c → c ≠ '\n' := fun c hc => h c (hc ▸ List.mem_cons_self)
    rw [List.foldl_cons, skip_ofText hpiece, ih fun c hc => h c (List.mem_cons_of_mem _ hc), List.flatMap_cons,
      List.append_assoc]

namespace Lexer

theorem ne_newline_of_mem_pieces {text : List Char} {c : Char} (h : .blank c ∈ (pieces text).1) : c ≠ '\n' := by
  fun_induction pieces text with
  | case1 => cases h
  | case2 cs skipped rest heq ih =>
    rw [heq] at ih
    cases h with
    | tail _ h => exact ih h
  | case3 d cs hn hd skipped rest heq ih =>
    rw [heq] at ih
    cases h with
    | head => exact hn
    | tail _ h => exact ih h
  | case4 => cases h
  | case5 d cs hn hd ho close tail hclose skipped rest heq ih =>
    rw [heq] at ih
    cases h with
    | tail _ h => exact ih h
  | case6 => cases h

/-! ## Reading -/

/-- Whatever is read stands on one line, unless it is an unclosed comment. -/
theorem newline_notMem_reading {c : Char} {cs : List Char} (hblank : isBlank c = false)
    (hclosed : (reading c cs).result ≠ .error .unterminatedComment) : '\n' ∉ (reading c cs).text := by
  rcases reading_cases c cs with ⟨p, hlongest, -⟩ | ⟨-, hresult, hrest⟩
  · exact hlongest.matched.isDense.newline_notMem
  · have hcomment : ¬ opensComment c = true := by
      intro hcomment
      rw [hresult, unmatchedFault, if_pos hcomment] at hclosed
      exact hclosed rfl
    have htext : (reading c cs).text = [c] := by
      have happend := reading_append c cs
      rw [hrest, if_neg hcomment] at happend
      exact List.append_cancel_right (show _ ++ cs = [c] ++ cs from happend)
    rw [htext, List.mem_singleton]
    rintro rfl
    cases hblank

/-- The line and the column that a token or a fault carries. -/
def place : Except LexicalError Lexeme → Nat × Nat
  | .ok t => (t.line, t.column)
  | .error e => (e.line, e.column)

theorem place_locate (r : Reading) (p : Position) : place (r.locate p) = (p.line, p.column) := by
  unfold Reading.locate
  cases r.result <;> rfl

theorem position_of_locate {r : Reading} {p : Position} {t : Lexeme} (h : r.locate p = .ok t) : t.position = p := by
  unfold Reading.locate at h
  split at h
  · cases h; rfl
  · cases h

/-! ## What was counted -/

/-- The lexer stands behind `consumed` in its text, and has counted all of it. -/
structure Counted (consumed : List Char) (lexer : Lexer) : Prop where
  split : lexer.source = consumed ++ lexer.rest
  cursor : lexer.cursor = .ofText consumed

theorem source_nextToken (lexer : Lexer) : lexer.nextToken.2.source = lexer.source := by
  cases h : (trivia lexer.rest).2 with
  | nil => rw [nextToken_of_nil h]
  | cons c cs => rw [nextToken_of_cons h]

theorem source_reached (source : String) (n : Nat) : (reached source n).source = source.toList := by
  induction n with
  | zero => rfl
  | succ n ih => rw [reached, source_nextToken, ih]

namespace Counted

variable {consumed : List Char} {lexer : Lexer}

theorem ofString (source : String) : Counted [] (ofString source) := ⟨rfl, rfl⟩

theorem behindTrivia (h : Counted consumed lexer) :
    lexer.behindTrivia = .ofText (consumed ++ (trivia lexer.rest).1) := by
  rw [Lexer.behindTrivia, h.cursor]
  exact Cursor.foldl_skip_ofText (fun _ => ne_newline_of_mem_pieces) consumed

theorem split_trivia (h : Counted consumed lexer) :
    lexer.source = consumed ++ (trivia lexer.rest).1 ++ (trivia lexer.rest).2 := by
  rw [List.append_assoc, trivia_append, h.split]

theorem start (h : Counted consumed lexer) : lexer.start = .ofText (consumed ++ (trivia lexer.rest).1) := by
  rw [Lexer.start, h.behindTrivia, h.split_trivia]
  exact Cursor.position_ofText _ _

/-- The end of input stands on the line behind the trivia, as many columns further on as there are characters. -/
theorem endOfInput (h : Counted consumed lexer) :
    lexer.endOfInput =
      ⟨.endOfInput,
        ⟨byteLength lexer.source, 1 + (consumed ++ (trivia lexer.rest).1).count '\n',
          1 + (lastLine (consumed ++ (trivia lexer.rest).1) ++ (trivia lexer.rest).2).length⟩,
        byteLength lexer.source⟩ := by
  have hplace := Cursor.position_ofText_append (consumed ++ (trivia lexer.rest).1) (trivia lexer.rest).2 []
  rw [List.append_nil, ← h.split_trivia] at hplace
  rw [Lexer.endOfInput, h.behindTrivia, hplace]

theorem endOfInput_of_nil (h : Counted consumed lexer) (hrest : (trivia lexer.rest).2 = []) :
    lexer.endOfInput = ⟨.endOfInput, lexer.start, lexer.start.offset⟩ := by
  have hsource : lexer.source = consumed ++ (trivia lexer.rest).1 := by
    rw [h.split_trivia, hrest, List.append_nil]
  rw [Lexer.endOfInput, Lexer.start, h.behindTrivia, hsource]
  rfl

theorem place_nextToken (h : Counted consumed lexer) :
    place lexer.nextToken.1 = (lexer.start.line, lexer.start.column) := by
  cases hrest : (trivia lexer.rest).2 with
  | nil => rw [nextToken_of_nil hrest, h.endOfInput_of_nil hrest]; rfl
  | cons c cs => rw [nextToken_of_cons hrest, place_locate]

theorem position_of_nextToken {t : Lexeme} (h : Counted consumed lexer) (ht : lexer.nextToken.1 = .ok t) :
    t.position = lexer.start := by
  cases hrest : (trivia lexer.rest).2 with
  | nil =>
    rw [nextToken_of_nil hrest, h.endOfInput_of_nil hrest] at ht
    cases ht
    rfl
  | cons c cs =>
    rw [nextToken_of_cons hrest] at ht
    exact position_of_locate ht

/-- Whatever is taken up is counted, unless it is an unclosed comment. -/
theorem next (h : Counted consumed lexer)
    (hclosed : verdict lexer.nextToken.1 ≠ .error .unterminatedComment) :
    ∃ more, Counted more lexer.nextToken.2 := by
  have hsplit := h.split_trivia
  have hsettled := settled_trivia lexer.rest
  cases hrest : (trivia lexer.rest).2 with
  | nil =>
    rw [hrest] at hsplit
    rw [nextToken_of_nil hrest]
    exact ⟨consumed ++ (trivia lexer.rest).1, hsplit, h.behindTrivia⟩
  | cons c cs =>
    rw [hrest] at hsplit hsettled
    rw [nextToken_of_cons hrest] at hclosed ⊢
    rw [verdict_locate] at hclosed
    refine ⟨consumed ++ (trivia lexer.rest).1 ++ (reading c cs).text, ?_, ?_⟩
    · rw [List.append_assoc, reading_append, hsplit]
    · have hline := newline_notMem_reading hsettled.isBlank_eq_false hclosed
      rw [h.behindTrivia, Cursor.advance_ofText hline]

end Counted

theorem exists_counted (source : String) (n : Nat)
    (h : ∀ m < n, verdict (reached source m).nextToken.1 ≠ .error .unterminatedComment) :
    ∃ consumed, Counted consumed (reached source n) := by
  induction n with
  | zero => exact ⟨[], .ofString source⟩
  | succ n ih =>
    obtain ⟨consumed, hcounted⟩ := ih fun m hm => h m (Nat.lt_succ_of_lt hm)
    exact hcounted.next (h n (Nat.lt_succ_self n))

/-! ## Behind an unclosed comment -/

theorem Finds.unclosed {remaining rest : List Char} (h : Finds remaining (.error .unterminatedComment) rest) :
    ∃ cs, remaining = '\x7b' :: cs ∧ '\x7d' ∉ cs := by
  cases h with
  | longest _ hmakes => cases hmakes
  | unterminated hopen _ => exact ⟨_, rfl, hopen⟩

/-- An unclosed comment takes up all that is left, and the line stays the one that it starts on. -/
theorem nextToken_of_unterminated {lexer : Lexer}
    (h : verdict lexer.nextToken.1 = .error .unterminatedComment) :
    ∃ cs, (trivia lexer.rest).2 = '\x7b' :: cs ∧ '\x7d' ∉ cs ∧
      lexer.nextToken.2 = { lexer with rest := [], cursor := lexer.behindTrivia.advance ('\x7b' :: cs) } := by
  have hfinds := finds_nextToken lexer
  rw [h] at hfinds
  obtain ⟨cs, hremaining, hopen⟩ := hfinds.unclosed
  refine ⟨cs, hremaining, hopen, ?_⟩
  rw [nextToken_of_cons hremaining]
  rfl

/-- Behind an unclosed comment the end of input is found where it would be found without looking at the comment. -/
theorem endOfInput_of_unterminated {lexer : Lexer} (h : verdict lexer.nextToken.1 = .error .unterminatedComment) :
    lexer.nextToken.2.endOfInput = lexer.endOfInput := by
  obtain ⟨cs, -, -, hnext⟩ := nextToken_of_unterminated h
  rw [hnext, endOfInput, behindTrivia, pieces]
  rfl

theorem nextToken_of_exhausted {lexer : Lexer} (h : lexer.rest = []) :
    lexer.nextToken = (.ok lexer.endOfInput, lexer) := by
  obtain ⟨source, rest, cursor, finished⟩ := lexer
  subst h
  rw [nextToken_of_nil (by rw [trivia_nil]), behindTrivia, pieces]
  rfl

/-- A text that is used up stays so. -/
theorem reached_of_exhausted {source : String} {n : Nat} (h : (reached source n).rest = []) (k : Nat) :
    reached source (n + k) = reached source n := by
  induction k with
  | zero => rfl
  | succ k ih =>
    rw [← Nat.add_assoc, reached, ih, nextToken_of_exhausted h]

/-! ## Positions of tokens and faults -/

/-- What is read after `n` tokens and faults is found in front of `remaining`, behind all trivia. -/
structure StartsAt (source : String) (n : Nat) (before remaining : List Char) : Prop where
  split : source.toList = before ++ remaining
  skipped : ∃ skipped, IsTrivia skipped ∧ (reached source n).rest = skipped ++ remaining
  settled : Settled remaining
  found : Finds remaining (verdict (reached source n).nextToken.1) (reached source (n + 1)).rest

theorem Counted.startsAt {source : String} {n : Nat} {consumed : List Char}
    (h : Counted consumed (reached source n)) :
    StartsAt source n (consumed ++ (trivia (reached source n).rest).1) (trivia (reached source n).rest).2 where
  split := source_reached source n ▸ h.split_trivia
  skipped := ⟨_, isTrivia_trivia _, (trivia_append _).symm⟩
  settled := settled_trivia _
  found := finds_nextToken _

/-- Until an unclosed comment is met, every token and every fault carries the line and the column of its first
character; so does the unclosed comment, behind which the end of input is found on the same line. -/
theorem nextToken_position (source : String) (n : Nat)
    (h : ∀ m < n, verdict (reached source m).nextToken.1 ≠ .error .unterminatedComment) :
    ∃ before remaining, StartsAt source n before remaining ∧
      place (reached source n).nextToken.1 = (1 + before.count '\n', 1 + (lastLine before).length) ∧
      (∀ t, (reached source n).nextToken.1 = .ok t → t.position.offset = (String.ofList before).utf8ByteSize) ∧
      (verdict (reached source n).nextToken.1 = .error .unterminatedComment →
        (∃ cs, remaining = '\x7b' :: cs ∧ '\x7d' ∉ cs) ∧
        ∀ m, n < m → (reached source m).nextToken.1 =
          .ok ⟨.endOfInput,
            ⟨source.utf8ByteSize, 1 + before.count '\n', 1 + (lastLine before ++ remaining).length⟩,
            source.utf8ByteSize⟩) := by
  obtain ⟨consumed, hcounted⟩ := exists_counted source n h
  have hstart := hcounted.start
  refine ⟨_, _, hcounted.startsAt, ?_, fun t ht => ?_, fun hopen => ?_⟩
  · rw [hcounted.place_nextToken, hstart]
    rfl
  · rw [hcounted.position_of_nextToken ht, hstart, ← byteLength_eq]
    rfl
  · obtain ⟨cs, hremaining, hclose, hnext⟩ := nextToken_of_unterminated hopen
    refine ⟨⟨cs, hremaining, hclose⟩, fun m hm => ?_⟩
    obtain ⟨k, rfl⟩ := Nat.exists_eq_add_of_lt hm
    have hrest : (reached source (n + 1)).rest = [] := by rw [reached, hnext]
    rw [Nat.add_right_comm, reached_of_exhausted hrest, nextToken_of_exhausted hrest, reached,
      endOfInput_of_unterminated hopen, hcounted.endOfInput, source_reached, byteLength_toList]

/-- A character of two bytes, a newline inside a comment and a stray `?` come before the comment that is not closed. -/
theorem nextToken_position_unclosed :
    let source := "\x7bé\n\x7d\tx?\n\x7b\n"
    (∀ m < 2, verdict (reached source m).nextToken.1 ≠ .error .unterminatedComment) ∧
      verdict (reached source 2).nextToken.1 = .error .unterminatedComment ∧
      ∃ before remaining, StartsAt source 2 before remaining ∧
        place (reached source 2).nextToken.1 = (1 + before.count '\n', 1 + (lastLine before).length) ∧
        ∀ m, 2 < m → (reached source m).nextToken.1 =
          .ok ⟨.endOfInput, ⟨11, 1 + before.count '\n', 1 + (lastLine before ++ remaining).length⟩, 11⟩ := by
  intro source
  have hfirst : ∀ m < 2, verdict (reached source m).nextToken.1 ≠ .error .unterminatedComment := by decide +kernel
  have hopen : verdict (reached source 2).nextToken.1 = .error .unterminatedComment := by decide +kernel
  obtain ⟨before, remaining, hstarts, hplace, -, hrest⟩ := nextToken_position source 2 hfirst
  exact ⟨hfirst, hopen, before, remaining, hstarts, hplace, (hrest hopen).2⟩

end Lexer

end MiniPascal
