import MiniPascal.Proofs.Token.Spans

/-!
# Progress

A lexer is asked for its next token, or used as an iterator that comes to an end; both move on in one text
(`Lexer.call`). A call that looks at the text takes up trivia and behind it at least one character, whether it finds a
token or a fault (`Lexer.Takes`), or it finds the end of input. So the text that is left is a measure of the calls that
are still to come.

* `Lexer.standsBehind_afterCalls`: what was taken up by all calls is the front of the text.
* `Lexer.calls_progress`: every call takes up something new, until the end of input is found for good.
-/

namespace MiniPascal

theorem Cursor.offset_skip (cursor : Cursor) (piece : Lexer.Piece) :
    (cursor.skip piece).offset = cursor.offset + byteLength piece.text := by
  cases piece with
  | blank c => rfl
  | newline => rfl
  | comment text =>
    unfold skip comment
    dsimp only
    split <;> rfl

theorem Cursor.offset_foldl_skip (cursor : Cursor) (skipped : List Lexer.Piece) :
    (skipped.foldl skip cursor).offset = cursor.offset + byteLength (skipped.flatMap Lexer.Piece.text) := by
  induction skipped generalizing cursor with
  | nil => rfl
  | cons piece skipped ih =>
    rw [List.foldl_cons, ih, offset_skip, List.flatMap_cons, byteLength_append, Nat.add_assoc]

namespace Lexer

/-! ## Calls -/

/-- A way to ask a lexer. -/
inductive Call where
  | nextToken
  | next
  deriving DecidableEq, Repr

/-- The answer to a call, which is none if the iterator is at its end, and the lexer behind it. -/
def call (lexer : Lexer) : Call → Option (Except LexicalError Lexeme) × Lexer
  | .nextToken => (some lexer.nextToken.1, lexer.nextToken.2)
  | .next => lexer.next?

def afterCalls (lexer : Lexer) (calls : List Call) : Lexer := calls.foldl (fun lexer c => (lexer.call c).2) lexer

def answers : Lexer → List Call → List (Option (Except LexicalError Lexeme))
  | _, [] => []
  | lexer, c :: calls => (lexer.call c).1 :: (lexer.call c).2.answers calls

/-- Whether the answer is a token or a fault, and not the end of input or that of the iterator. -/
def advances : Option (Except LexicalError Lexeme) → Bool
  | none => false
  | some (.ok t) => t.token ≠ .endOfInput
  | some (.error _) => true

theorem afterCalls_append (lexer : Lexer) (calls more : List Call) :
    lexer.afterCalls (calls ++ more) = (lexer.afterCalls calls).afterCalls more := List.foldl_append

theorem finished_nextToken (lexer : Lexer) : lexer.nextToken.2.finished = lexer.finished := by
  cases h : (trivia lexer.rest).2 with
  | nil => rw [nextToken_of_nil h]
  | cons c cs => rw [nextToken_of_cons h]

/-- An answer comes from the text, and what is left of it is the same for both ways to ask. -/
theorem of_call_eq_some {lexer : Lexer} {c : Call} {found : Except LexicalError Lexeme}
    (h : (lexer.call c).1 = some found) :
    found = lexer.nextToken.1 ∧ (lexer.call c).2.rest = lexer.nextToken.2.rest ∧
      (lexer.call c).2.cursor = lexer.nextToken.2.cursor := by
  cases c with
  | nextToken =>
    cases h
    exact ⟨rfl, rfl, rfl⟩
  | next =>
    rw [call, next?] at h ⊢
    split at h
    · cases h
    next hfinished =>
      cases h
      rw [if_neg hfinished]
      exact ⟨rfl, rfl, rfl⟩

theorem of_call_eq_none {lexer : Lexer} {c : Call} (h : (lexer.call c).1 = none) : (lexer.call c).2 = lexer := by
  cases c with
  | nextToken => cases h
  | next =>
    rw [call, next?] at h ⊢
    split at h
    next hfinished => rw [if_pos hfinished]
    · cases h

theorem source_call (lexer : Lexer) (c : Call) : (lexer.call c).2.source = lexer.source := by
  cases c with
  | nextToken => exact source_nextToken lexer
  | next =>
    rw [call, next?]
    split
    · rfl
    · exact source_nextToken lexer

theorem source_afterCalls (lexer : Lexer) (calls : List Call) : (lexer.afterCalls calls).source = lexer.source := by
  induction calls generalizing lexer with
  | nil => rfl
  | cons c calls ih => exact (ih _).trans (source_call lexer c)

/-! ## What a call takes up -/

/-- The text that a token or a fault stands for in front of `rest`: a longest match, which is the whole literal if a
number is bad, or else a single character or all that is left. -/
def Covers (text rest : List Char) : Except LexicalFault Token → Prop
  | .ok token => ∃ p, LongestMatch (text ++ rest) p text rest ∧ p.Makes text (.ok token)
  | .error (.integerOutOfRange literal) => LongestMatch (text ++ rest) .integer text rest ∧ literal = String.ofList text
  | .error (.malformedReal literal) => LongestMatch (text ++ rest) .real text rest ∧ literal = String.ofList text
  | .error (.unexpectedCharacter c) => text = [c]
  | .error .unterminatedComment => rest = []

theorem LongestMatch.covers {remaining text rest : List Char} {p : Pattern} {found : Except LexicalFault Token}
    (h : LongestMatch remaining p text rest) (hmakes : p.Makes text found) : Covers text rest found := by
  obtain rfl := h.split
  cases hmakes with
  | outOfRange => exact ⟨h, rfl⟩
  | malformed => exact ⟨h, rfl⟩
  | real hfinite => exact ⟨_, h, .real hfinite⟩
  | integer hrange hn => exact ⟨_, h, .integer hrange hn⟩
  | keyword => exact ⟨_, h, .keyword⟩
  | identifier => exact ⟨_, h, .identifier⟩
  | mark => exact ⟨_, h, .mark⟩

theorem covers_reading (c : Char) (cs : List Char) :
    Covers (reading c cs).text (reading c cs).rest (reading c cs).result := by
  rcases reading_cases c cs with ⟨p, hlongest, hmakes⟩ | ⟨-, hresult, hrest⟩
  · exact hlongest.covers hmakes
  · have happend := reading_append c cs
    rw [hresult, unmatchedFault]
    split
    next hcomment => rw [hrest, if_pos hcomment, Covers]
    next hcomment =>
      rw [hrest, if_neg hcomment] at happend
      exact List.append_cancel_right (show _ ++ cs = [c] ++ cs from happend)

/-- The lexer stands behind `consumed` in the text. -/
structure StandsBehind (source : String) (consumed : List Char) (lexer : Lexer) : Prop where
  split : source.toList = consumed ++ lexer.rest
  offset : lexer.cursor.offset = byteLength consumed

/-- Behind `consumed`, trivia is skipped and `text` is taken up for `found`. -/
structure Takes (source : String) (lexer : Lexer) (found : Except LexicalError Lexeme) (next : Lexer)
    (consumed skipped text : List Char) : Prop where
  before : StandsBehind source consumed lexer
  isTrivia : IsTrivia skipped
  text_ne_nil : text ≠ []
  covers : Covers text next.rest (verdict found)
  span : ∀ t, found = .ok t →
    t.position.offset = byteLength (consumed ++ skipped) ∧ t.stop = byteLength (consumed ++ skipped ++ text)
  after : StandsBehind source (consumed ++ skipped ++ text) next

namespace StandsBehind

variable {source : String} {consumed : List Char} {lexer : Lexer}

theorem ofString (source : String) : StandsBehind source [] (Lexer.ofString source) := ⟨rfl, rfl⟩

theorem congr {other : Lexer} (h : StandsBehind source consumed lexer) (hrest : other.rest = lexer.rest)
    (hcursor : other.cursor = lexer.cursor) : StandsBehind source consumed other :=
  ⟨hrest ▸ h.split, hcursor ▸ h.offset⟩

theorem offset_behindTrivia (h : StandsBehind source consumed lexer) :
    lexer.behindTrivia.offset = byteLength (consumed ++ (trivia lexer.rest).1) := by
  rw [behindTrivia, Cursor.offset_foldl_skip, h.offset, byteLength_append]
  rfl

/-- The end of input is found if only trivia is left, and all of it is taken up then. -/
theorem nextToken_of_nil (h : StandsBehind source consumed lexer) (hrest : (trivia lexer.rest).2 = []) :
    StandsBehind source (consumed ++ (trivia lexer.rest).1) lexer.nextToken.2 := by
  rw [Lexer.nextToken_of_nil hrest]
  refine ⟨?_, h.offset_behindTrivia⟩
  rw [List.append_assoc, ← hrest, trivia_append, h.split]

theorem takes_nextToken (h : StandsBehind source consumed lexer) {c : Char} {cs : List Char}
    (hrest : (trivia lexer.rest).2 = c :: cs) :
    Takes source lexer lexer.nextToken.1 lexer.nextToken.2 consumed (trivia lexer.rest).1 (reading c cs).text := by
  have hstart : lexer.start.offset = byteLength (consumed ++ (trivia lexer.rest).1) := h.offset_behindTrivia
  have hstop : lexer.start.offset + byteLength (reading c cs).text =
      byteLength (consumed ++ (trivia lexer.rest).1 ++ (reading c cs).text) := by
    rw [hstart, byteLength_append (_ ++ _)]
  rw [nextToken_of_cons hrest]
  refine ⟨h, isTrivia_trivia _, reading_text_ne_nil c cs, ?_, fun t ht => ?_, ?_, hstop⟩
  · rw [verdict_locate]
    exact covers_reading c cs
  · rw [position_of_locate ht, (Reading.of_locate ht).2]
    exact ⟨hstart, hstop⟩
  · rw [List.append_assoc, reading_append, ← hrest, List.append_assoc, trivia_append, h.split]

end StandsBehind

/-- The end of input is found where nothing but trivia is left, and nowhere else. -/
theorem advances_nextToken_iff {lexer : Lexer} :
    advances (some lexer.nextToken.1) = true ↔ ∃ c cs, (trivia lexer.rest).2 = c :: cs := by
  cases hrest : (trivia lexer.rest).2 with
  | nil =>
    rw [nextToken_of_nil hrest]
    simp [advances, endOfInput]
  | cons c cs =>
    refine iff_of_true ?_ ⟨c, cs, rfl⟩
    cases hfound : lexer.nextToken.1 with
    | error e => rfl
    | ok t =>
      refine decide_eq_true fun ht => ?_
      rw [trivia_of_endOfInput hfound ht] at hrest
      cases hrest

section Calls

variable {source : String} {consumed : List Char} {lexer : Lexer} {c : Call}

/-- A token or a fault takes up characters that no call has taken up before. -/
theorem StandsBehind.takes_call (h : StandsBehind source consumed lexer) {found : Except LexicalError Lexeme}
    (hfound : (lexer.call c).1 = some found) (hadvances : advances (some found) = true) :
    ∃ skipped text, Takes source lexer found (lexer.call c).2 consumed skipped text := by
  obtain ⟨rfl, hrest, hcursor⟩ := of_call_eq_some hfound
  obtain ⟨c, cs, hcons⟩ := advances_nextToken_iff.mp hadvances
  have htakes := h.takes_nextToken hcons
  exact ⟨_, _, { htakes with covers := hrest ▸ htakes.covers, after := htakes.after.congr hrest hcursor }⟩

/-- No call gives back what was taken up. -/
theorem StandsBehind.call (h : StandsBehind source consumed lexer) (c : Call) :
    ∃ more, StandsBehind source (consumed ++ more) (lexer.call c).2 := by
  cases hfound : (lexer.call c).1 with
  | none =>
    rw [of_call_eq_none hfound]
    exact ⟨[], by rwa [List.append_nil]⟩
  | some found =>
    obtain ⟨-, hrest, hcursor⟩ := of_call_eq_some hfound
    cases hleft : (trivia lexer.rest).2 with
    | nil => exact ⟨_, (h.nextToken_of_nil hleft).congr hrest hcursor⟩
    | cons d ds =>
      have hafter := (h.takes_nextToken hleft).after
      rw [List.append_assoc] at hafter
      exact ⟨_, hafter.congr hrest hcursor⟩

theorem StandsBehind.afterCalls (h : StandsBehind source consumed lexer) (calls : List Call) :
    ∃ more, StandsBehind source (consumed ++ more) (lexer.afterCalls calls) := by
  induction calls generalizing consumed lexer with
  | nil => exact ⟨[], by rwa [List.append_nil]⟩
  | cons c calls ih =>
    obtain ⟨more, hmore⟩ := h.call c
    obtain ⟨later, hlater⟩ := ih hmore
    exact ⟨more ++ later, by rwa [← List.append_assoc]⟩

end Calls

theorem standsBehind_afterCalls (source : String) (calls : List Call) :
    ∃ consumed, StandsBehind source consumed ((ofString source).afterCalls calls) :=
  (StandsBehind.ofString source).afterCalls calls

/-! ## How many calls advance -/

/-- A call that advances leaves less of the text, and no call leaves more. -/
theorem length_rest_call_add_le (lexer : Lexer) (c : Call) :
    (lexer.call c).2.rest.length + (if advances (lexer.call c).1 = true then 1 else 0) ≤ lexer.rest.length := by
  cases hfound : (lexer.call c).1 with
  | none => simp [advances, of_call_eq_none hfound]
  | some found =>
    obtain ⟨rfl, hrest, -⟩ := of_call_eq_some hfound
    rw [hrest]
    split
    next hadvances =>
      obtain ⟨d, ds, hcons⟩ := advances_nextToken_iff.mp hadvances
      have hlt := length_reading_rest_lt d ds
      have hle := length_trivia_rest_le lexer.rest
      rw [hcons] at hle
      rw [nextToken_of_cons hcons]
      dsimp only
      omega
    next => exact (nextToken_rest_suffix lexer).length_le

theorem countP_advances_add_length_le (calls : List Call) (lexer : Lexer) :
    (lexer.answers calls).countP advances + (lexer.afterCalls calls).rest.length ≤ lexer.rest.length := by
  induction calls generalizing lexer with
  | nil => simp [answers, afterCalls]
  | cons c calls ih =>
    have hcall := length_rest_call_add_le lexer c
    have hlater := ih (lexer.call c).2
    rw [answers, List.countP_cons]
    change _ + ((lexer.call c).2.afterCalls calls).rest.length ≤ _
    omega

/-! ## The end of input -/

/-- Nothing but trivia is left, and the end of input is `stop`. -/
structure EndsWith (stop : Lexeme) (lexer : Lexer) : Prop where
  rest : (trivia lexer.rest).2 = []
  endOfInput : lexer.endOfInput = stop

namespace EndsWith

variable {stop : Lexeme} {lexer : Lexer}

theorem nextToken (h : EndsWith stop lexer) : lexer.nextToken.1 = .ok stop := by
  rw [nextToken_of_nil h.rest, h.endOfInput]

theorem call (h : EndsWith stop lexer) (c : Call) : EndsWith stop (lexer.call c).2 := by
  cases hfound : (lexer.call c).1 with
  | none => rwa [of_call_eq_none hfound]
  | some found =>
    obtain ⟨-, hrest, hcursor⟩ := of_call_eq_some hfound
    rw [nextToken_of_nil h.rest] at hrest hcursor
    refine ⟨by rw [hrest, trivia_nil], ?_⟩
    rw [Lexer.endOfInput, behindTrivia, hrest, hcursor, source_call, pieces]
    exact h.endOfInput

/-- Whatever calls follow, the end of input stays where it was found. -/
theorem afterCalls (h : EndsWith stop lexer) (calls : List Call) : EndsWith stop (lexer.afterCalls calls) := by
  induction calls generalizing lexer with
  | nil => exact h
  | cons c calls ih => exact ih (h.call c)

end EndsWith

/-! ## The end of the iterator -/

theorem isLast_iff {found : Except LexicalError Lexeme} :
    isLast found = true ↔ verdict found = .ok .endOfInput ∨ ∃ fault, verdict found = .error fault := by
  cases found <;> simp [isLast, verdict]

theorem next?_eq_none_iff {lexer : Lexer} : lexer.next?.1 = none ↔ lexer.finished = true := by
  unfold next?
  split <;> simp_all

/-- The iterator ends with a call of `next` that finds a fault or the end of input, and with no other call. -/
theorem finished_call_iff {lexer : Lexer} {c : Call} :
    (lexer.call c).2.finished = true ↔
      lexer.finished = true ∨ c = .next ∧ ∃ found, lexer.next?.1 = some found ∧ isLast found = true := by
  cases c with
  | nextToken => simp [call, finished_nextToken]
  | next =>
    rw [call]
    unfold next?
    split <;> simp_all

theorem finished_afterCalls_iff {calls : List Call} {lexer : Lexer} :
    (lexer.afterCalls calls).finished = true ↔ lexer.finished = true ∨
      ∃ before after found, calls = before ++ .next :: after ∧ (lexer.afterCalls before).next?.1 = some found ∧
        isLast found = true := by
  induction calls generalizing lexer with
  | nil => simp [afterCalls]
  | cons c calls ih =>
    change ((lexer.call c).2.afterCalls calls).finished = true ↔ _
    rw [ih, finished_call_iff, or_assoc]
    refine or_congr_right ⟨?_, ?_⟩
    · rintro (⟨rfl, found, hfound, hlast⟩ | ⟨before, after, found, rfl, hfound, hlast⟩)
      · exact ⟨[], calls, found, rfl, hfound, hlast⟩
      · exact ⟨c :: before, after, found, rfl, hfound, hlast⟩
    · rintro ⟨before, after, found, hcalls, hfound, hlast⟩
      cases before with
      | nil =>
        cases hcalls
        exact .inl ⟨rfl, found, hfound, hlast⟩
      | cons first before =>
        cases hcalls
        exact .inr ⟨before, after, found, rfl, hfound, hlast⟩

/-- **Reading always makes progress**, whichever way and in whatever order a lexer is asked. A token or a fault takes up
text that was not taken up before. There are no more of them than the text has characters, and then the end of input is
found for good. The iterator ends with its own first fault or end of input. -/
theorem calls_progress (source : String) (calls : List Call) :
    let lexer := (ofString source).afterCalls calls
    let advanced := ((ofString source).answers calls).countP advances
    (∀ c found, (lexer.call c).1 = some found → advances (some found) = true →
      ∃ consumed skipped text, Takes source lexer found (lexer.call c).2 consumed skipped text) ∧
    (∀ c, (lexer.call c).1 = none → (lexer.call c).2 = lexer) ∧
    advanced ≤ source.length ∧
    (advances (some lexer.nextToken.1) = true ∧ advanced < source.length ∨
      ∃ line column, ∀ more, ((ofString source).afterCalls (calls ++ more)).nextToken.1 =
        .ok ⟨.endOfInput, ⟨source.utf8ByteSize, line, column⟩, source.utf8ByteSize⟩) ∧
    (lexer.next?.1 = none ↔
      ∃ before after found, calls = before ++ .next :: after ∧
        ((ofString source).afterCalls before).next?.1 = some found ∧
        (verdict found = .ok .endOfInput ∨ ∃ fault, verdict found = .error fault)) := by
  intro lexer advanced
  obtain ⟨consumed, hbehind⟩ := standsBehind_afterCalls source calls
  have hcount : advanced + lexer.rest.length ≤ source.length := countP_advances_add_length_le calls (ofString source)
  refine ⟨fun c found hfound hadvances => ⟨consumed, hbehind.takes_call hfound hadvances⟩, fun c => of_call_eq_none,
    Nat.le_of_add_right_le hcount, ?_, ?_⟩
  · cases hleft : (trivia lexer.rest).2 with
    | cons d ds =>
      have hle := length_trivia_rest_le lexer.rest
      rw [hleft, List.length_cons] at hle
      exact .inl ⟨advances_nextToken_iff.mpr ⟨d, ds, hleft⟩, by omega⟩
    | nil =>
      have hstop : byteLength lexer.source = source.utf8ByteSize := by
        rw [source_afterCalls, ofString, byteLength_toList]
      refine .inr ⟨lexer.endOfInput.line, lexer.endOfInput.column, fun more => ?_⟩
      have hends : EndsWith lexer.endOfInput (lexer.afterCalls more) := EndsWith.afterCalls ⟨hleft, rfl⟩ more
      rw [afterCalls_append, hends.nextToken, ← hstop]
      rfl
  · simp only [next?_eq_none_iff, lexer, finished_afterCalls_iff, isLast_iff, ofString, Bool.false_eq_true, false_or]

/-- A stray `?` ends the iterator, the comment behind it is not closed, and the two calls after it find nothing. -/
theorem calls_progress_unclosed :
    let source := "é 1?\n\x7b?"
    let calls : List Call := [.nextToken, .next, .next, .nextToken]
    let lexer := (ofString source).afterCalls calls
    lexer.next?.1 = none ∧
    (∃ consumed skipped text, Takes source ((ofString source).afterCalls (calls.take 3))
      (.error ⟨.unterminatedComment, 2, 1⟩) lexer consumed skipped text) ∧
    ∃ line column, ∀ more, ((ofString source).afterCalls (calls ++ more)).nextToken.1 =
      .ok ⟨.endOfInput, ⟨8, line, column⟩, 8⟩ := by
  intro source calls lexer
  have hstray : ((ofString source).afterCalls [.nextToken, .next]).next?.1 =
      some (.error ⟨.unexpectedCharacter '?', 1, 4⟩) := by decide +kernel
  have hcomment : (((ofString source).afterCalls (calls.take 3)).call .nextToken).1 =
      some (.error ⟨.unterminatedComment, 2, 1⟩) := by decide +kernel
  have hend : advances (some lexer.nextToken.1) = false := by decide +kernel
  obtain ⟨-, -, -, hforever, hnone⟩ := calls_progress source calls
  refine ⟨hnone.mpr ⟨[.nextToken, .next], [.nextToken], _, rfl, hstray, .inr ⟨_, rfl⟩⟩,
    (calls_progress source (calls.take 3)).1 .nextToken _ hcomment rfl, hforever.resolve_left ?_⟩
  rintro ⟨hadvances, -⟩
  rw [hend] at hadvances
  cases hadvances

end Lexer

end MiniPascal
