import MiniPascal.Token.Lexer

/-!
# Trivia

Blanks and closed comments are skipped, all of them (`IsTrivia`, `Settled`), newlines among the blanks. What is skipped
or taken up as one run of characters is as long as can be, because the character behind it is of another kind (`Ends`).

* `Lexer.isTrivia_trivia`, `Lexer.settled_trivia`: the lexer skips trivia only, and leaves none.
-/

namespace MiniPascal.Lexer

/-! ## Runs of characters -/

/-- What follows does not go on with a run of characters. -/
def Ends (p : Char → Bool) (rest : List Char) : Prop := ∀ c tail, rest = c :: tail → p c = false

theorem ends_dropWhile (p : Char → Bool) (text : List Char) : Ends p (text.dropWhile p) := by
  intro c tail h
  have := List.head?_dropWhile_not p text
  rw [h] at this
  simpa using this

theorem takeWhile_append {p : Char → Bool} {text rest : List Char} (h : ∀ c ∈ text, p c = true) (hrest : Ends p rest) :
    (text ++ rest).takeWhile p = text := by
  rw [List.takeWhile_append_of_pos h]
  cases rest with
  | nil => simp
  | cons c tail => simp [hrest c tail rfl]

/-- A run is not shorter than any other run in front of the same text. -/
theorem length_le_of_ends {p : Char → Bool} {text rest other tail : List Char} (hrest : Ends p rest)
    (h : text ++ rest = other ++ tail) (htext : ∀ c ∈ text, p c = true) (hother : ∀ c ∈ other, p c = true) :
    other.length ≤ text.length := by
  have hlongest : text = other ++ tail.takeWhile p := by
    rw [← takeWhile_append htext hrest, h, List.takeWhile_append_of_pos hother]
  rw [hlongest, List.length_append]
  omega

/-! ## Trivia -/

/-- Blanks and closed comments in any order. -/
inductive IsTrivia : List Char → Prop
  | nil : IsTrivia []
  | blank {c : Char} {text : List Char} : isBlank c = true → IsTrivia text → IsTrivia (c :: text)
  | comment {body text : List Char} : '\x7d' ∉ body → IsTrivia text →
      IsTrivia ('\x7b' :: (body ++ '\x7d' :: text))

/-- Nothing is left to skip. -/
def Settled (remaining : List Char) : Prop := ∀ more tail, remaining = more ++ tail → IsTrivia more → more = []

theorem opensComment_iff {c : Char} : opensComment c = true ↔ c = '\x7b' := by
  simp [opensComment]

theorem closesComment_iff {c : Char} : closesComment c = true ↔ c = '\x7d' := by
  simp [closesComment]

theorem notMem_takeWhile_closes (cs : List Char) : '\x7d' ∉ cs.takeWhile (!closesComment ·) := by
  intro hmem
  have hopen := List.all_eq_true.mp List.all_takeWhile _ hmem
  exact absurd hopen (by decide)

theorem notMem_of_dropWhile_closes {cs : List Char} (h : cs.dropWhile (!closesComment ·) = []) : '\x7d' ∉ cs := by
  have hsplit := List.takeWhile_append_dropWhile (p := (!closesComment ·)) (l := cs)
  rw [h, List.append_nil] at hsplit
  rw [← hsplit]
  exact notMem_takeWhile_closes cs

theorem closes_of_dropWhile {cs tail : List Char} {close : Char}
    (h : cs.dropWhile (!closesComment ·) = close :: tail) : close = '\x7d' := by
  have hend := ends_dropWhile (!closesComment ·) cs close tail h
  rw [Bool.not_eq_false'] at hend
  exact closesComment_iff.mp hend

/-- The text of all that is skipped in front, and what follows it. -/
def trivia (text : List Char) : List Char × List Char := ((pieces text).1.flatMap Piece.text, (pieces text).2)

theorem trivia_append (cs : List Char) : (trivia cs).1 ++ (trivia cs).2 = cs := pieces_append cs

theorem length_trivia_rest_le (cs : List Char) : (trivia cs).2.length ≤ cs.length := length_pieces_rest_le cs

@[simp] theorem trivia_nil : trivia [] = ([], []) := by
  unfold trivia
  rw [pieces]
  rfl

theorem isTrivia_trivia (cs : List Char) : IsTrivia (trivia cs).1 := by
  unfold trivia
  fun_induction pieces cs with
  | case1 => exact .nil
  | case2 cs skipped rest heq ih =>
    rw [heq] at ih
    exact .blank rfl ih
  | case3 c cs hn hc skipped rest heq ih =>
    rw [heq] at ih
    exact .blank hc ih
  | case4 => exact .nil
  | case5 c cs hn hc ho close tail hd skipped rest heq ih =>
    rw [heq] at ih
    rw [opensComment_iff.mp ho, closes_of_dropWhile hd, List.flatMap_cons, Piece.text, List.cons_append,
      List.cons_append, List.append_assoc]
    exact .comment (notMem_takeWhile_closes cs) ih
  | case6 => exact .nil

theorem isTrivia_space : IsTrivia [' '] := .blank rfl .nil

theorem settled_nil : Settled [] := by
  intro more tail h _
  exact (List.append_eq_nil_iff.mp h.symm).1

/-- A text is settled unless a blank or a closed comment starts it. -/
theorem settled_cons {c : Char} {cs : List Char} (hblank : isBlank c = false) (hcomment : c = '\x7b' → '\x7d' ∉ cs) :
    Settled (c :: cs) := by
  intro more tail h htrivia
  cases htrivia with
  | nil => rfl
  | blank hc _ =>
    cases h
    rw [hblank] at hc
    cases hc
  | comment _ _ =>
    cases h
    exact absurd (List.mem_append_left _ (List.mem_append_right _ List.mem_cons_self)) (hcomment rfl)

theorem settled_trivia (cs : List Char) : Settled (trivia cs).2 := by
  unfold trivia
  fun_induction pieces cs with
  | case1 => exact settled_nil
  | case2 cs skipped rest heq ih => rwa [heq] at ih
  | case3 c cs hn hc skipped rest heq ih => rwa [heq] at ih
  | case4 c cs hn hc ho hd =>
    rw [Bool.not_eq_true] at hc
    exact settled_cons hc fun _ => notMem_of_dropWhile_closes hd
  | case5 c cs hn hc ho close tail hd skipped rest heq ih => rwa [heq] at ih
  | case6 c cs hn hc ho =>
    rw [Bool.not_eq_true] at hc
    exact settled_cons hc fun h => absurd (opensComment_iff.mpr h) ho

theorem Settled.isBlank_eq_false {c : Char} {cs : List Char} (h : Settled (c :: cs)) : isBlank c = false := by
  rw [← Bool.not_eq_true]
  intro hc
  cases h [c] cs rfl (.blank hc .nil)

/-- A comment that starts a settled text is never closed. -/
theorem Settled.notMem {cs : List Char} (h : Settled ('\x7b' :: cs)) : '\x7d' ∉ cs := by
  have hsplit := List.takeWhile_append_dropWhile (p := (!closesComment ·)) (l := cs)
  cases hd : cs.dropWhile (!closesComment ·) with
  | nil => exact notMem_of_dropWhile_closes hd
  | cons close tail =>
    rw [hd, closes_of_dropWhile hd] at hsplit
    have hcomment := IsTrivia.comment (notMem_takeWhile_closes cs) .nil
    have htext : '\x7b' :: cs = '\x7b' :: (cs.takeWhile (!closesComment ·) ++ ['\x7d']) ++ tail := by
      simp [hsplit]
    cases h _ tail htext hcomment

end MiniPascal.Lexer
