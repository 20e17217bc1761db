import Mathlib.Data.Nat.Digits.Defs
import MiniPascal.Token.Lexer

/-!
# The patterns of tokens

The shapes that tokens have are patterns, each of which matches certain texts and makes a token, or a fault, of them
(`Pattern.Matches`, `Pattern.Makes`). The first character of a text tells apart the patterns that may match it.
-/

namespace MiniPascal

/-! ## Reserved words and marks -/

namespace Keyword

theorem mem_all (word : Keyword) : word ∈ all := by
  cases word <;> decide

theorem text_injective {word other : Keyword} (h : word.text = other.text) : word = other := by
  revert h
  cases word <;> cases other <;> decide

theorem text_ne_nil (word : Keyword) : word.text.toList ≠ [] := by
  cases word <;> decide

theorem isLower_text (word : Keyword) : ∀ c ∈ word.text.toList, c.isLower = true := by
  rw [← List.all_eq_true]
  cases word <;> decide

theorem text_of_ofText? {s : String} {word : Keyword} (h : ofText? s = some word) : word.text = s := by
  have hfound := List.find?_some h
  simpa using hfound

theorem text_ne_of_ofText? {s : String} (h : ofText? s = none) (word : Keyword) : word.text ≠ s := by
  have hnone := List.find?_eq_none.mp h word (mem_all word)
  simpa using hnone

end Keyword

namespace Mark

theorem text_ne_nil (m : Mark) : m.text.toList ≠ [] := by
  cases m <;> decide

/-- A mark is one character, or it is `:=`. -/
theorem text_cases (m : Mark) :
    (∃ c, m.text.toList = [c] ∧ ofChar? c = some m) ∨ m = assign ∧ m.text.toList = [':', '='] := by
  cases m with
  | assign => exact .inr ⟨rfl, by decide⟩
  | _ => exact .inl ⟨_, rfl, rfl⟩

theorem text_of_ofChar? {c : Char} {m : Mark} (h : ofChar? c = some m) : m.text.toList = [c] := by
  unfold ofChar? at h
  split at h <;> cases h <;> decide

end Mark

namespace Lexer

/-! ## Patterns -/

inductive Pattern where
  | real
  | integer
  | keyword (word : Keyword)
  | identifier
  | mark (m : Mark)
  deriving DecidableEq

/-- A run of digits, at least one. -/
def IsDigits (text : List Char) : Prop := text ≠ [] ∧ ∀ c ∈ text, c.isDigit = true

namespace Pattern

/-- The texts of a pattern. Reserved words may be written in letters of either case. -/
inductive Matches : Pattern → List Char → Prop
  | real {whole fraction : List Char} : IsDigits whole → IsDigits fraction → Matches real (whole ++ '.' :: fraction)
  | integer {digits : List Char} : IsDigits digits → Matches integer digits
  | keyword {word : Keyword} {text : List Char} : text.map Char.toLower = word.text.toList →
      Matches (keyword word) text
  | identifier {c : Char} {cs : List Char} : isWordStart c = true → (∀ d ∈ cs, isWordPart d = true) →
      Matches identifier (c :: cs)
  | mark (m : Mark) : Matches (mark m) m.text.toList

/-- The number that digits write to base ten. -/
def decimalValue (digits : List Char) : Nat :=
  Nat.ofDigits 10 (digits.reverse.map fun c => c.toNat - '0'.toNat)

/-- What a pattern makes of its texts. A real constant is the nearest double, if that is finite. -/
inductive Makes : Pattern → List Char → Except LexicalFault Token → Prop
  | real {whole fraction : List Char} : Double.ofDigits whole fraction < Double.infinity →
      Makes real (whole ++ '.' :: fraction) (.ok (.real (.ofMagnitude false (Double.ofDigits whole fraction))))
  | malformed {whole fraction : List Char} : Double.infinity ≤ Double.ofDigits whole fraction →
      Makes real (whole ++ '.' :: fraction) (.error (.malformedReal (String.ofList (whole ++ '.' :: fraction))))
  | integer {digits : List Char} {n : Integer} : decimalValue digits ≤ 2 ^ 63 - 1 → n.toInt = decimalValue digits →
      Makes integer digits (.ok (.integer n))
  | outOfRange {digits : List Char} : 2 ^ 63 - 1 < decimalValue digits →
      Makes integer digits (.error (.integerOutOfRange (String.ofList digits)))
  | keyword {word : Keyword} {text : List Char} : Makes (keyword word) text (.ok (.keyword word))
  | identifier {text : List Char} :
      Makes identifier text (.ok (.identifier (String.ofList (text.map Char.toLower))))
  | mark {m : Mark} {text : List Char} : Makes (mark m) text (.ok (.mark m))

end Pattern

/-! ## First characters -/

theorem isDigit_iff {c : Char} : c.isDigit = true ↔ 48 ≤ c.toNat ∧ c.toNat ≤ 57 := by
  simp [Char.isDigit, UInt32.le_iff_toNat_le, ← Char.toNat_val]

theorem isAlpha_iff {c : Char} :
    c.isAlpha = true ↔ (65 ≤ c.toNat ∧ c.toNat ≤ 90) ∨ (97 ≤ c.toNat ∧ c.toNat ≤ 122) := by
  delta Char.isAlpha Char.isUpper Char.isLower
  simp [UInt32.le_iff_toNat_le, ← Char.toNat_val]

theorem isWordStart_of_isDigit {c : Char} (h : c.isDigit = true) : isWordStart c = false := by
  rw [isDigit_iff] at h
  have halpha : c.isAlpha = false := by
    rw [Bool.eq_false_iff, Ne, isAlpha_iff]
    omega
  have hne : c ≠ '_' := by
    rintro rfl
    exact absurd h.2 (by decide)
  simp [isWordStart, halpha, hne]

theorem isAlpha_of_toLower {c : Char} (h : c.toLower.isLower = true) : c.isAlpha = true := by
  show (c.isUpper || c.isLower) = true
  rw [Bool.or_eq_true]
  delta Char.toLower at h
  split at h
  next hupper =>
    delta Char.isUpper
    exact .inl (by simpa using hupper)
  next => exact .inr h

/-- A reserved word is spelled like a name. -/
theorem Pattern.Matches.identifier_of_keyword {word : Keyword} {text : List Char}
    (h : text.map Char.toLower = word.text.toList) : Pattern.Matches .identifier text := by
  have halpha : ∀ c ∈ text, c.isAlpha = true := by
    intro c hc
    have hmem : c.toLower ∈ word.text.toList := h ▸ List.mem_map_of_mem hc
    exact isAlpha_of_toLower (word.isLower_text _ hmem)
  cases text with
  | nil => exact absurd h.symm word.text_ne_nil
  | cons c cs =>
    refine .identifier ?_ fun d hd => ?_
    · simp [isWordStart, halpha c List.mem_cons_self]
    · simp [isWordPart, Char.isAlphanum, halpha d (List.mem_cons_of_mem _ hd)]

theorem Pattern.Matches.ne_nil {p : Pattern} {text : List Char} (h : p.Matches text) : text ≠ [] := by
  cases h with
  | real _ _ => simp
  | integer hdigits => exact hdigits.1
  | @keyword word _ htext =>
    rintro rfl
    exact word.text_ne_nil htext.symm
  | identifier _ _ => simp
  | mark m => exact m.text_ne_nil

/-- A mark starts with no character of a number or a word. -/
theorem head_mark {m : Mark} {c : Char} {cs : List Char} (h : m.text.toList = c :: cs) :
    c.isDigit = false ∧ isWordStart c = false := by
  cases m <;> cases h <;> decide

/-- The first character tells numbers, words and marks apart. -/
theorem Pattern.Matches.kinds {p : Pattern} {c : Char} {cs text tail : List Char} (h : p.Matches text)
    (hsplit : c :: cs = text ++ tail) :
    c.isDigit = true ∧ (p = .real ∨ p = .integer) ∨
      isWordStart c = true ∧ Pattern.Matches .identifier text ∧ (p = .identifier ∨ ∃ word, p = .keyword word) ∨
      (c.isDigit = false ∧ isWordStart c = false) ∧ ∃ m, p = .mark m ∧ text = m.text.toList := by
  have hword : Pattern.Matches .identifier text → isWordStart c = true := by
    intro hname
    cases hname with
    | identifier hstart _ =>
      cases hsplit
      exact hstart
  cases h with
  | @real whole fraction hwhole _ =>
    obtain ⟨hne, hdigits⟩ := hwhole
    obtain ⟨d, ds, rfl⟩ := List.exists_cons_of_ne_nil hne
    cases hsplit
    exact .inl ⟨hdigits c List.mem_cons_self, .inl rfl⟩
  | integer hdigits =>
    obtain ⟨hne, hdigits⟩ := hdigits
    obtain ⟨d, ds, rfl⟩ := List.exists_cons_of_ne_nil hne
    cases hsplit
    exact .inl ⟨hdigits c List.mem_cons_self, .inr rfl⟩
  | keyword htext =>
    have hname := identifier_of_keyword htext
    exact .inr (.inl ⟨hword hname, hname, .inr ⟨_, rfl⟩⟩)
  | identifier hstart hparts =>
    have hname := Pattern.Matches.identifier hstart hparts
    exact .inr (.inl ⟨hword hname, hname, .inl rfl⟩)
  | mark m =>
    obtain ⟨d, ds, htext⟩ := List.exists_cons_of_ne_nil m.text_ne_nil
    have hd : d = c := by
      rw [htext, List.cons_append, List.cons.injEq] at hsplit
      exact hsplit.1.symm
    exact .inr (.inr ⟨head_mark (hd ▸ htext), m, rfl, rfl⟩)

/-- A text that starts like a number is matched as a number only. -/
theorem Pattern.Matches.number {p : Pattern} {c : Char} {cs text tail : List Char} (h : p.Matches text)
    (hsplit : c :: cs = text ++ tail) (hc : c.isDigit = true) :
    p = .real ∧ (∃ whole fraction, IsDigits whole ∧ IsDigits fraction ∧ text = whole ++ '.' :: fraction) ∨
      p = .integer ∧ IsDigits text := by
  rcases h.kinds hsplit with ⟨-, rfl | rfl⟩ | ⟨hstart, -⟩ | ⟨⟨hdigit, -⟩, -⟩
  · cases h with
    | real hwhole hfraction => exact .inl ⟨rfl, _, _, hwhole, hfraction, rfl⟩
  · cases h with
    | integer hdigits => exact .inr ⟨rfl, hdigits⟩
  · rw [isWordStart_of_isDigit hc] at hstart
    cases hstart
  · rw [hc] at hdigit
    cases hdigit

/-- A text that starts like a word is matched as a word only, and is spelled like a name. -/
theorem Pattern.Matches.word {p : Pattern} {c : Char} {cs text tail : List Char} (h : p.Matches text)
    (hsplit : c :: cs = text ++ tail) (hc : isWordStart c = true) :
    Pattern.Matches .identifier text ∧ (p = .identifier ∨ ∃ word, p = .keyword word) := by
  rcases h.kinds hsplit with ⟨hdigit, -⟩ | ⟨-, hp⟩ | ⟨⟨-, hstart⟩, -⟩
  · rw [isWordStart_of_isDigit hdigit] at hc
    cases hc
  · exact hp
  · rw [hc] at hstart
    cases hstart

/-- Any other text is matched as a mark only. -/
theorem Pattern.Matches.other {p : Pattern} {c : Char} {cs text tail : List Char} (h : p.Matches text)
    (hsplit : c :: cs = text ++ tail) (hdigit : c.isDigit = false) (hstart : isWordStart c = false) :
    ∃ m, p = .mark m ∧ text = m.text.toList := by
  rcases h.kinds hsplit with ⟨hc, -⟩ | ⟨hc, -⟩ | ⟨-, hmark⟩
  · rw [hdigit] at hc
    cases hc
  · rw [hstart] at hc
    cases hc
  · exact hmark

/-! ## Texts of tokens -/

theorem of_blank_or_comment {c : Char} (h : isBlank c = true ∨ opensComment c = true) :
    isWordPart c = false ∧ c.isDigit = false ∧ c ≠ '.' ∧ c ≠ '=' := by
  simp only [isBlank, opensComment, Bool.or_eq_true, beq_iff_eq] at h
  rcases h with ((((rfl | rfl) | rfl) | rfl) | rfl) | rfl <;> decide

theorem Pattern.Matches.isWordPart {text : List Char} (h : Pattern.Matches .identifier text) :
    ∀ c ∈ text, isWordPart c = true := by
  cases h with
  | identifier hstart hparts =>
    exact List.forall_mem_cons.mpr ⟨isWordPart_of_isWordStart hstart, hparts⟩

/-- The text holds no blank and opens no comment. -/
def IsDense (text : List Char) : Prop := ∀ c ∈ text, isBlank c = false ∧ opensComment c = false

theorem IsDense.newline_notMem {text : List Char} (h : IsDense text) : '\n' ∉ text := by
  intro hmem
  cases (h _ hmem).1

theorem isDense_of_forall {p : Char → Bool} {text : List Char} (h : ∀ c ∈ text, p c = true)
    (hp : ∀ c, isBlank c = true ∨ opensComment c = true → p c = false) : IsDense text := by
  intro c hc
  have hclass := h c hc
  constructor
  · by_contra hblank
    rw [Bool.not_eq_false] at hblank
    rw [hp c (.inl hblank)] at hclass
    cases hclass
  · by_contra hcomment
    rw [Bool.not_eq_false] at hcomment
    rw [hp c (.inr hcomment)] at hclass
    cases hclass

theorem IsDigits.isDense {digits : List Char} (h : IsDigits digits) : IsDense digits :=
  isDense_of_forall h.2 fun _ hc => (of_blank_or_comment hc).2.1

/-- No token goes on across a blank or a comment. -/
theorem Pattern.Matches.isDense {p : Pattern} {text : List Char} (h : p.Matches text) : IsDense text := by
  have hword {text : List Char} (h : Pattern.Matches .identifier text) : IsDense text :=
    isDense_of_forall h.isWordPart fun _ hc => (of_blank_or_comment hc).1
  cases h with
  | real hwhole hfraction =>
    have hpoint : IsDense ['.'] := List.forall_mem_singleton.mpr (by decide)
    exact List.forall_mem_append.mpr
      ⟨hwhole.isDense, List.forall_mem_cons.mpr ⟨hpoint _ List.mem_cons_self, hfraction.isDense⟩⟩
  | integer hdigits => exact hdigits.isDense
  | keyword htext => exact hword (identifier_of_keyword htext)
  | identifier hstart hparts => exact hword (.identifier hstart hparts)
  | mark m =>
    have hall : m.text.toList.all (fun c => !isBlank c && !opensComment c) = true := by cases m <;> decide
    simpa [IsDense] using hall

end Lexer

end MiniPascal
