import MiniPascal.Proofs.Token.Patterns
import MiniPascal.Proofs.Token.Trivia

/-!
# Longest match

Where no trivia is left to skip, the lexer takes the longest text in front that any pattern matches (`LongestMatch`); a
reserved word wins over the name that it is spelled like.

* `Lexer.nextToken_longestMatch`: every token that is read is that of a longest match.
-/

namespace MiniPascal.Lexer

/-! ## Longest matches -/

/-- The pattern `p` matches `text`, no pattern matches more of `remaining`, and none is preferred. -/
structure LongestMatch (remaining : List Char) (p : Pattern) (text rest : List Char) : Prop where
  split : remaining = text ++ rest
  matched : p.Matches text
  longest : ∀ (q : Pattern) other tail, remaining = other ++ tail → q.Matches other → other.length ≤ text.length
  /-- At the same length, only a reserved word and a name compete, and the reserved word wins. -/
  preferred : ∀ q, q.Matches text → q ≠ p → q = .identifier ∧ ∃ word, p = .keyword word

/-- No pattern matches a text in front. -/
def Unmatched (remaining : List Char) : Prop :=
  ∀ p text tail, remaining = text ++ tail → ¬ Pattern.Matches p text

/-! ## Numbers -/

theorem decimalValue_eq (digits : List Char) : Nat.ofDigitChars 10 digits 0 = Pattern.decimalValue digits := by
  rw [Pattern.decimalValue, Nat.ofDigits_eq_foldr, List.foldr_map, List.foldr_reverse, Nat.ofDigitChars_eq_foldl]
  congr 1
  funext n c
  exact Nat.add_comm _ _

theorem makes_readInteger (digits rest : List Char) :
    Pattern.Makes .integer digits (readInteger digits rest).result := by
  have hvalue := decimalValue_eq digits
  cases h : Integer.ofInt? (Nat.ofDigitChars 10 digits 0) with
  | none =>
    have hrange := Integer.ofInt?_eq_none_iff.mp h
    rw [Integer.inRange_iff, hvalue] at hrange
    simp only [readInteger, h]
    exact .outOfRange (by omega)
  | some n =>
    have hn := Integer.ofInt?_eq_some_iff.mp h
    have hrange := Integer.inRange_iff.mp (Integer.inRange_toInt n)
    rw [hvalue] at hn
    simp only [readInteger, h]
    exact .integer (by omega) hn

theorem makes_readReal (whole fraction rest : List Char) :
    Pattern.Makes .real (whole ++ '.' :: fraction) (readReal whole fraction rest).result := by
  simp only [readReal]
  split
  next h => exact .real h
  next h => exact .malformed (Nat.le_of_not_lt h)

theorem ends_point (rest : List Char) : Ends Char.isDigit ('.' :: rest) := by
  intro c tail h
  cases h
  decide

/-- No run of digits contains a point. -/
theorem not_isDigits_point {whole fraction : List Char} : ¬ IsDigits (whole ++ '.' :: fraction) := by
  rintro ⟨-, hdigits⟩
  have hpoint := hdigits '.' (List.mem_append_right _ List.mem_cons_self)
  exact absurd hpoint (by decide)

/-- A number is split at its point in one way only. -/
theorem split_at_point {whole other rest tail : List Char} (hwhole : ∀ c ∈ whole, c.isDigit = true)
    (hother : ∀ c ∈ other, c.isDigit = true) (hrest : Ends Char.isDigit rest)
    (h : whole ++ rest = other ++ '.' :: tail) : whole = other ∧ rest = '.' :: tail := by
  have hdigits : whole = other := by
    rw [← takeWhile_append hwhole hrest, h, takeWhile_append hother (ends_point tail)]
  subst hdigits
  exact ⟨rfl, List.append_cancel_left h⟩

/-- Digits, a point and digits are one number, up to the last digit. -/
theorem longestMatch_real {whole fraction rest : List Char} (hwhole : IsDigits whole) (hfraction : IsDigits fraction)
    (hrest : Ends Char.isDigit rest) :
    LongestMatch (whole ++ '.' :: fraction ++ rest) .real (whole ++ '.' :: fraction) rest := by
  obtain ⟨d, ds, hd⟩ := List.exists_cons_of_ne_nil hwhole.1
  have hdigit : d.isDigit = true := hwhole.2 d (hd ▸ List.mem_cons_self)
  refine ⟨rfl, .real hwhole hfraction, fun q other tail hsplit hq => ?_, fun q hq hne => ?_⟩
  · rcases hq.number (by rw [← hsplit, hd]; rfl) hdigit with ⟨-, w, f, hw, hf, rfl⟩ | ⟨-, hdigits⟩
    · rw [List.append_assoc, List.append_assoc, List.cons_append, List.cons_append] at hsplit
      obtain ⟨rfl, hbehind⟩ := split_at_point hwhole.2 hw.2 (ends_point _) hsplit
      have hle := length_le_of_ends hrest (List.tail_eq_of_cons_eq hbehind) hfraction.2 hf.2
      simp only [List.length_append, List.length_cons]
      omega
    · rw [List.append_assoc] at hsplit
      have hle := length_le_of_ends (ends_point _) hsplit hwhole.2 hdigits.2
      rw [List.length_append]
      omega
  · have hsplit : d :: (ds ++ '.' :: fraction) = whole ++ '.' :: fraction ++ [] := by simp [hd]
    rcases hq.number hsplit hdigit with ⟨hreal, -⟩ | ⟨-, hdigits⟩
    · exact absurd hreal hne
    · exact absurd hdigits not_isDigits_point

/-- Digits alone are a number, up to the last digit; a point without a digit behind it does not count. -/
theorem longestMatch_integer {digits rest : List Char} (hdigits : IsDigits digits) (hrest : Ends Char.isDigit rest)
    (hpoint : ∀ tail, rest = '.' :: tail → Ends Char.isDigit tail) :
    LongestMatch (digits ++ rest) .integer digits rest := by
  obtain ⟨d, ds, hd⟩ := List.exists_cons_of_ne_nil hdigits.1
  have hdigit : d.isDigit = true := hdigits.2 d (hd ▸ List.mem_cons_self)
  refine ⟨rfl, .integer hdigits, fun q other tail hsplit hq => ?_, fun q hq hne => ?_⟩
  · rcases hq.number (by rw [← hsplit, hd]; rfl) hdigit with ⟨-, w, f, hw, hf, rfl⟩ | ⟨-, hother⟩
    · rw [List.append_assoc, List.cons_append] at hsplit
      obtain ⟨rfl, hbehind⟩ := split_at_point hdigits.2 hw.2 hrest hsplit
      -- a digit stands behind the point after all
      obtain ⟨e, es, rfl⟩ := List.exists_cons_of_ne_nil hf.1
      have hend := hpoint _ hbehind e (es ++ tail) rfl
      rw [hf.2 e List.mem_cons_self] at hend
      cases hend
    · exact length_le_of_ends hrest hsplit hdigits.2 hother.2
  · have hsplit : d :: ds = digits ++ [] := by simp [hd]
    rcases hq.number hsplit hdigit with ⟨-, w, f, -, -, rfl⟩ | ⟨hinteger, -⟩
    · exact absurd hdigits not_isDigits_point
    · exact absurd hinteger hne

/-- What is read in front of a text is its longest match, and the token made of it. -/
def Reading.IsMatch (remaining : List Char) (r : Reading) : Prop :=
  ∃ p, LongestMatch remaining p r.text r.rest ∧ p.Makes r.text r.result

theorem isMatch_readReal {whole fraction rest : List Char} (hwhole : IsDigits whole) (hfraction : IsDigits fraction)
    (hrest : Ends Char.isDigit rest) :
    (readReal whole fraction rest).IsMatch (whole ++ '.' :: fraction ++ rest) :=
  ⟨.real, longestMatch_real hwhole hfraction hrest, makes_readReal whole fraction rest⟩

theorem isMatch_readInteger {digits rest : List Char} (hdigits : IsDigits digits) (hrest : Ends Char.isDigit rest)
    (hpoint : ∀ tail, rest = '.' :: tail → Ends Char.isDigit tail) :
    (readInteger digits rest).IsMatch (digits ++ rest) :=
  ⟨.integer, longestMatch_integer hdigits hrest hpoint, makes_readInteger digits rest⟩

theorem isDigits_takeWhile {c : Char} (hc : c.isDigit = true) (cs : List Char) :
    IsDigits ((c :: cs).takeWhile Char.isDigit) := by
  refine ⟨?_, fun d hd => ?_⟩
  · simp [hc]
  · exact List.all_eq_true.mp List.all_takeWhile d hd

theorem isMatch_readNumber {c : Char} (hc : c.isDigit = true) (cs : List Char) :
    (readNumber (c :: cs)).IsMatch (c :: cs) := by
  have hwhole := isDigits_takeWhile hc cs
  have hends := ends_dropWhile Char.isDigit (c :: cs)
  have hsplit := List.takeWhile_append_dropWhile (p := Char.isDigit) (l := c :: cs)
  unfold readNumber
  dsimp only
  split
  next d rest hdrop =>
    rw [hdrop] at hends hsplit
    split
    next hd =>
      have hfraction := List.takeWhile_append_dropWhile (p := Char.isDigit) (l := d :: rest)
      have htext : c :: cs = (c :: cs).takeWhile Char.isDigit ++ '.' :: (d :: rest).takeWhile Char.isDigit ++
          (d :: rest).dropWhile Char.isDigit := by
        rw [List.append_assoc, List.cons_append, hfraction, hsplit]
      have hmatch := isMatch_readReal hwhole (isDigits_takeWhile hd rest) (ends_dropWhile Char.isDigit (d :: rest))
      rwa [← htext] at hmatch
    next hd =>
      have hmatch := isMatch_readInteger hwhole hends fun tail htail e es hes => by
        cases htail
        cases hes
        exact Bool.eq_false_iff.mpr hd
      rwa [hsplit] at hmatch
  next hpoint =>
    have hmatch := isMatch_readInteger hwhole hends fun tail htail e es hes => by
      exact (hpoint e es (hes ▸ htail)).elim
    rwa [hsplit] at hmatch

/-! ## Words -/

/-- The text is a reserved word if its small letters are. -/
theorem matches_keyword_iff {word : Keyword} {text : List Char} :
    Pattern.Matches (.keyword word) text ↔ word.text = String.ofList (text.map Char.toLower) := by
  constructor
  · intro h
    cases h with
    | keyword htext => rw [htext, String.ofList_toList]
  · intro h
    exact .keyword (by rw [h, String.toList_ofList])

theorem isMatch_readWord {c : Char} (hc : isWordStart c = true) (cs : List Char) :
    (readWord (c :: cs)).IsMatch (c :: cs) := by
  have hpart := isWordPart_of_isWordStart hc
  have hsplit := List.takeWhile_append_dropWhile (p := isWordPart) (l := c :: cs)
  have hends := ends_dropWhile isWordPart (c :: cs)
  have hparts : ∀ d ∈ (c :: cs).takeWhile isWordPart, isWordPart d = true :=
    fun d hd => List.all_eq_true.mp List.all_takeWhile d hd
  -- all that can match is spelled like a name, so no match goes beyond the run of word characters
  have hlongest : ∀ (q : Pattern) other tail, c :: cs = other ++ tail → q.Matches other →
      other.length ≤ ((c :: cs).takeWhile isWordPart).length := by
    intro q other tail hother hq
    have hname := (hq.word hother hc).1
    exact length_le_of_ends hends (hsplit.trans hother) hparts hname.isWordPart
  have hself : ∀ q : Pattern, q.Matches ((c :: cs).takeWhile isWordPart) →
      q = .identifier ∨ ∃ word, q = .keyword word :=
    fun q hq => (hq.word hsplit.symm hc).2
  cases hword : Keyword.ofText? (String.ofList (((c :: cs).takeWhile isWordPart).map Char.toLower)) with
  | some word =>
    have hmatched := matches_keyword_iff.mpr (Keyword.text_of_ofText? hword)
    refine ⟨.keyword word, ⟨hsplit.symm, hmatched, hlongest, fun q hq hne => ?_⟩, ?_⟩
    · rcases hself q hq with rfl | ⟨other, rfl⟩
      · exact ⟨rfl, word, rfl⟩
      · have htext := (matches_keyword_iff.mp hq).trans (matches_keyword_iff.mp hmatched).symm
        exact absurd (congrArg Pattern.keyword (Keyword.text_injective htext)) hne
    · simp only [readWord, hword]
      exact .keyword
  | none =>
    have hmatched : Pattern.Matches .identifier ((c :: cs).takeWhile isWordPart) := by
      rw [List.takeWhile_cons_of_pos hpart] at hparts ⊢
      exact .identifier hc fun d hd => hparts d (List.mem_cons_of_mem _ hd)
    refine ⟨.identifier, ⟨hsplit.symm, hmatched, hlongest, fun q hq hne => ?_⟩, ?_⟩
    · rcases hself q hq with rfl | ⟨word, rfl⟩
      · exact absurd rfl hne
      · exact absurd (matches_keyword_iff.mp hq) (Keyword.text_ne_of_ofText? hword word)
    · simp only [readWord, hword]
      exact .identifier

/-! ## Marks -/

/-- What is neither a number nor a word is matched as its first character, or as `:=`. -/
theorem Pattern.Matches.mark_cases {p : Pattern} {c : Char} {cs text tail : List Char} (h : p.Matches text)
    (hsplit : c :: cs = text ++ tail) (hdigit : c.isDigit = false) (hstart : isWordStart c = false) :
    (∃ m, p = .mark m ∧ text = [c] ∧ Mark.ofChar? c = some m) ∨
      p = .mark .assign ∧ text = [':', '='] ∧ c = ':' ∧ cs = '=' :: tail := by
  obtain ⟨m, rfl, rfl⟩ := h.other hsplit hdigit hstart
  rcases m.text_cases with ⟨d, htext, hd⟩ | ⟨rfl, htext⟩
  · rw [htext] at hsplit ⊢
    obtain rfl : c = d := List.head_eq_of_cons_eq hsplit
    exact .inl ⟨m, rfl, rfl, hd⟩
  · rw [htext] at hsplit
    cases hsplit
    exact .inr ⟨rfl, htext, rfl, rfl⟩

theorem longestMatch_assign (rest : List Char) :
    LongestMatch (':' :: '=' :: rest) (.mark .assign) [':', '='] rest := by
  refine ⟨rfl, .mark .assign, fun q other tail hsplit hq => ?_, fun q hq hne => ?_⟩
  · rcases hq.mark_cases hsplit (by decide) (by decide) with ⟨m, -, rfl, -⟩ | ⟨-, rfl, -⟩ <;> simp
  · have hsplit : [':', '='] = [':', '='] ++ [] := rfl
    rcases hq.mark_cases hsplit (by decide) (by decide) with ⟨m, -, htext, -⟩ | ⟨rfl, -⟩
    · cases htext
    · exact absurd rfl hne

theorem longestMatch_mark {c : Char} {m : Mark} {cs : List Char} (hm : Mark.ofChar? c = some m)
    (hassign : c = ':' → ∀ tail, cs ≠ '=' :: tail) : LongestMatch (c :: cs) (.mark m) [c] cs := by
  have htext := Mark.text_of_ofChar? hm
  obtain ⟨hdigit, hstart⟩ := head_mark htext
  refine ⟨rfl, htext ▸ .mark m, fun q other tail hsplit hq => ?_, fun q hq hne => ?_⟩
  · rcases hq.mark_cases hsplit hdigit hstart with ⟨_, -, rfl, -⟩ | ⟨-, -, hc, hcs⟩
    · simp
    · exact absurd hcs (hassign hc tail)
  · have hsplit : [c] = [c] ++ [] := rfl
    rcases hq.mark_cases hsplit hdigit hstart with ⟨n, rfl, -, hn⟩ | ⟨-, htwo, -⟩
    · cases hm.symm.trans hn
      exact absurd rfl hne
    · cases htwo

theorem unmatched_of_ofChar? {c : Char} (hdigit : c.isDigit = false) (hstart : isWordStart c = false)
    (hc : Mark.ofChar? c = none) (cs : List Char) : Unmatched (c :: cs) := by
  intro p text tail hsplit hp
  rcases hp.mark_cases hsplit hdigit hstart with ⟨m, -, -, hm⟩ | ⟨-, -, rfl, -⟩
  · cases hc.symm.trans hm
  · cases hc

/-! ## Readings -/

/-- The fault of a text that no pattern matches. -/
def unmatchedFault (c : Char) : LexicalFault := if opensComment c then .unterminatedComment else .unexpectedCharacter c

/-- A reading is the longest match, or a fault if there is none. An unclosed comment takes up all of the text. -/
theorem reading_cases (c : Char) (cs : List Char) :
    (reading c cs).IsMatch (c :: cs) ∨
      Unmatched (c :: cs) ∧ (reading c cs).result = .error (unmatchedFault c) ∧
        (reading c cs).rest = if opensComment c then [] else cs := by
  unfold reading
  split
  next hdigit => exact .inl (isMatch_readNumber hdigit cs)
  next hdigit =>
  split
  next hstart => exact .inl (isMatch_readWord hstart cs)
  next hstart =>
  rw [Bool.not_eq_true] at hdigit hstart
  split
  next hcomment =>
    have hnone : Mark.ofChar? c = none := by
      rw [opensComment_iff.mp hcomment]
      rfl
    exact .inr ⟨unmatched_of_ofChar? hdigit hstart hnone cs, by simp [unmatchedFault, hcomment], rfl⟩
  next hcomment =>
  split
  next rest => exact .inl ⟨_, longestMatch_assign rest, .mark⟩
  next hassign =>
  split
  next m hm => exact .inl ⟨_, longestMatch_mark hm fun hc tail hcs => hassign tail hc hcs, .mark⟩
  next hnone =>
    exact .inr ⟨unmatched_of_ofChar? hdigit hstart hnone cs, by simp [unmatchedFault, hcomment], rfl⟩

/-! ## The lexer -/

section

variable {lexer : Lexer}

/-- The cursor behind the trivia in front. -/
def behindTrivia (lexer : Lexer) : Cursor := (pieces lexer.rest).1.foldl Cursor.skip lexer.cursor

/-- The place behind the trivia in front. -/
def start (lexer : Lexer) : Position := lexer.behindTrivia.position lexer.source lexer.behindTrivia.offset

/-- The end of input, as it is found behind the trivia in front. -/
def endOfInput (lexer : Lexer) : Lexeme where
  token := .endOfInput
  position := lexer.behindTrivia.position lexer.source (byteLength lexer.source)
  stop := byteLength lexer.source

theorem nextToken_of_nil (h : (trivia lexer.rest).2 = []) :
    lexer.nextToken = (.ok lexer.endOfInput, { lexer with rest := [], cursor := lexer.behindTrivia }) := by
  have hrest : (pieces lexer.rest).2 = [] := h
  simp only [nextToken, hrest]
  rfl

theorem nextToken_of_cons {c : Char} {cs : List Char} (h : (trivia lexer.rest).2 = c :: cs) :
    lexer.nextToken =
      ((reading c cs).locate lexer.start,
        { lexer with rest := (reading c cs).rest, cursor := lexer.behindTrivia.advance (reading c cs).text }) := by
  have hrest : (pieces lexer.rest).2 = c :: cs := h
  simp only [nextToken, hrest]
  rfl

end

/-- A token or fault without its place. -/
def verdict : Except LexicalError Lexeme → Except LexicalFault Token
  | .ok t => .ok t.token
  | .error e => .error e.fault

/-- The lexer after `n` tokens and faults of a text. -/
def reached (source : String) : Nat → Lexer
  | 0 => ofString source
  | n + 1 => (reached source n).nextToken.2

/-- What is found in front of a settled text, and what it leaves. -/
inductive Finds : List Char → Except LexicalFault Token → List Char → Prop
  | endOfInput : Finds [] (.ok .endOfInput) []
  | longest {remaining text rest : List Char} {p : Pattern} {found : Except LexicalFault Token} :
      LongestMatch remaining p text rest → p.Makes text found → Finds remaining found rest
  | unterminated {cs : List Char} : '\x7d' ∉ cs → Unmatched ('\x7b' :: cs) →
      Finds ('\x7b' :: cs) (.error .unterminatedComment) []
  | unexpected {c : Char} {cs : List Char} : c ≠ '\x7b' → Unmatched (c :: cs) →
      Finds (c :: cs) (.error (.unexpectedCharacter c)) cs

theorem finds_reading {c : Char} {cs : List Char} (h : Settled (c :: cs)) :
    Finds (c :: cs) (reading c cs).result (reading c cs).rest := by
  rcases reading_cases c cs with ⟨p, hlongest, hmakes⟩ | ⟨hnone, hresult, hrest⟩
  · exact .longest hlongest hmakes
  · rw [hresult, hrest, unmatchedFault]
    split
    next hcomment =>
      obtain rfl := opensComment_iff.mp hcomment
      exact .unterminated h.notMem hnone
    next hcomment => exact .unexpected (fun hc => hcomment (opensComment_iff.mpr hc)) hnone

theorem verdict_locate (r : Reading) (start : Position) : verdict (r.locate start) = r.result := by
  unfold Reading.locate
  split <;> simp_all [verdict]

theorem finds_nextToken (lexer : Lexer) :
    Finds (trivia lexer.rest).2 (verdict lexer.nextToken.1) lexer.nextToken.2.rest := by
  have hsettled := settled_trivia lexer.rest
  cases h : (trivia lexer.rest).2 with
  | nil =>
    rw [nextToken_of_nil h]
    exact .endOfInput
  | cons c cs =>
    rw [h] at hsettled
    rw [nextToken_of_cons h, verdict_locate]
    exact finds_reading hsettled

/-- What is left is the end of what was left before. -/
theorem nextToken_rest_suffix (lexer : Lexer) : lexer.nextToken.2.rest <:+ lexer.rest := by
  have hskipped : (trivia lexer.rest).2 <:+ lexer.rest := ⟨_, trivia_append lexer.rest⟩
  refine List.IsSuffix.trans ?_ hskipped
  cases h : (trivia lexer.rest).2 with
  | nil => simp [nextToken_of_nil h]
  | cons c cs =>
    rw [nextToken_of_cons h]
    exact ⟨_, reading_append c cs⟩

theorem reached_rest_suffix (source : String) (n : Nat) : (reached source n).rest <:+ source.toList := by
  induction n with
  | zero => exact List.suffix_rfl
  | succ n ih => exact (nextToken_rest_suffix _).trans ih

theorem LongestMatch.unique {remaining text rest text' rest' : List Char} {p p' : Pattern}
    (h : LongestMatch remaining p text rest) (h' : LongestMatch remaining p' text' rest') :
    p' = p ∧ text' = text ∧ rest' = rest := by
  have hlength : text.length = text'.length :=
    Nat.le_antisymm (h'.longest p text rest h.split h.matched) (h.longest p' text' rest' h'.split h'.matched)
  obtain ⟨rfl, rfl⟩ := List.append_inj (h.split.symm.trans h'.split) hlength
  -- two patterns for one text would each have to be a reserved word
  refine ⟨Classical.byContradiction fun hne => ?_, rfl, rfl⟩
  obtain ⟨rfl, word, rfl⟩ := h.preferred p' h'.matched hne
  obtain ⟨hname, -⟩ := h'.preferred _ h.matched (Ne.symm hne)
  cases hname

/-- A text with a longest match is found as that. -/
theorem Finds.of_longestMatch {remaining text rest rest' : List Char} {p : Pattern} {found : Except LexicalFault Token}
    (hfinds : Finds remaining found rest') (h : LongestMatch remaining p text rest) :
    p.Makes text found ∧ rest' = rest := by
  cases hfinds with
  | endOfInput => exact absurd (List.append_eq_nil_iff.mp h.split.symm).1 h.matched.ne_nil
  | longest hlongest hmakes =>
    obtain ⟨rfl, rfl, rfl⟩ := h.unique hlongest
    exact ⟨hmakes, rfl⟩
  | unterminated _ hnone => exact absurd h.matched (hnone _ _ _ h.split)
  | unexpected _ hnone => exact absurd h.matched (hnone _ _ _ h.split)

/-- However many tokens and faults were read, what comes next is found behind all trivia, as the longest match, as the
end of input or as a fault. Digits, a point and digits are one number; a point without a digit behind it is left. -/
theorem nextToken_longestMatch (source : String) (n : Nat) :
    ∃ consumed skipped remaining, source.toList = consumed ++ (skipped ++ remaining) ∧
      (reached source n).rest = skipped ++ remaining ∧ IsTrivia skipped ∧ Settled remaining ∧
      Finds remaining (verdict (reached source n).nextToken.1) (reached source (n + 1)).rest ∧
      (∀ whole fraction rest, remaining = whole ++ '.' :: fraction ++ rest → IsDigits whole → IsDigits fraction →
        Ends Char.isDigit rest →
        Pattern.Makes .real (whole ++ '.' :: fraction) (verdict (reached source n).nextToken.1) ∧
          (reached source (n + 1)).rest = rest) ∧
      ∀ digits rest, remaining = digits ++ rest → IsDigits digits → Ends Char.isDigit rest →
        (∀ tail, rest = '.' :: tail → Ends Char.isDigit tail) →
        Pattern.Makes .integer digits (verdict (reached source n).nextToken.1) ∧
          (reached source (n + 1)).rest = rest := by
  obtain ⟨consumed, hconsumed⟩ := reached_rest_suffix source n
  have hsplit := trivia_append (reached source n).rest
  have hfinds := finds_nextToken (reached source n)
  refine ⟨consumed, _, _, by rw [hsplit, hconsumed], hsplit.symm, isTrivia_trivia _, settled_trivia _, hfinds, ?_, ?_⟩
  · intro whole fraction rest hremaining hwhole hfraction hrest
    exact (hremaining ▸ hfinds).of_longestMatch (longestMatch_real hwhole hfraction hrest)
  · intro digits rest hremaining hdigits hrest hpoint
    exact (hremaining ▸ hfinds).of_longestMatch (longestMatch_integer hdigits hrest hpoint)

/-- In `12.5.x` the first point belongs to the number; in `7.x` it does not. -/
theorem nextToken_longestMatch_point :
    (IsDigits ['1', '2'] ∧ IsDigits ['5'] ∧
      Pattern.Makes .real ['1', '2', '.', '5'] (verdict (reached "12.5.x" 0).nextToken.1) ∧
      (reached "12.5.x" 1).rest = ['.', 'x']) ∧
    (IsDigits ['7'] ∧ Pattern.Makes .integer ['7'] (verdict (reached "7.x" 0).nextToken.1) ∧
      (reached "7.x" 1).rest = ['.', 'x']) := by
  have htwelve : IsDigits ['1', '2'] := ⟨by decide, List.all_eq_true.mp (by decide)⟩
  have hfive : IsDigits ['5'] := ⟨by decide, List.all_eq_true.mp (by decide)⟩
  have hseven : IsDigits ['7'] := ⟨by decide, List.all_eq_true.mp (by decide)⟩
  constructor
  · obtain ⟨_, skipped, remaining, -, hsplit, htrivia, -, -, hreal, -⟩ := nextToken_longestMatch "12.5.x" 0
    obtain rfl := settled_cons (by decide) (by decide) skipped remaining hsplit htrivia
    exact ⟨htwelve, hfive, hreal ['1', '2'] ['5'] ['.', 'x'] hsplit.symm htwelve hfive (ends_point _)⟩
  · obtain ⟨_, skipped, remaining, -, hsplit, htrivia, -, -, -, hinteger⟩ := nextToken_longestMatch "7.x" 0
    obtain rfl := settled_cons (by decide) (by decide) skipped remaining hsplit htrivia
    refine ⟨hseven, hinteger ['7'] ['.', 'x'] hsplit.symm hseven (ends_point _) fun tail htail d _ hd => ?_⟩
    cases htail
    cases hd
    decide

end MiniPascal.Lexer
