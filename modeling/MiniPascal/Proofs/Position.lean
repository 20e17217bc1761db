import Mathlib.Data.List.DropRight
import MiniPascal.Position

/-!
# Lines of a text

A cursor that has passed a text knows how many bytes and newlines stand in it, and at which byte its last line starts
(`Cursor.ofText`). Each way to move a cursor on keeps that up: over characters of one line (`Cursor.advance_ofText`),
over a newline (`Cursor.newline_ofText`), and over a comment, whose last newline is looked for
(`Cursor.comment_ofText`).

* `Cursor.position_ofText`: the place that a cursor gives counts the newlines before it, and the characters between the
  last of them and the place.
-/

namespace MiniPascal

/-! ## Bytes of a text -/

theorem byteLength_append (text more : List Char) : byteLength (text ++ more) = byteLength text + byteLength more := by
  induction text with
  | nil => simp [byteLength]
  | cons c cs ih => simp [byteLength, ih, Nat.add_assoc]

theorem byteLength_eq (text : List Char) : byteLength text = (String.ofList text).utf8ByteSize := by
  induction text with
  | nil => rfl
  | cons c cs ih =>
    have hsplit : String.ofList (c :: cs) = String.singleton c ++ String.ofList cs := by
      rw [String.singleton_eq_ofList, ← String.ofList_append]
      rfl
    rw [byteLength, ih, hsplit, String.utf8ByteSize_append, String.utf8ByteSize_singleton]

theorem byteLength_toList (source : String) : byteLength source.toList = source.utf8ByteSize := by
  rw [byteLength_eq, String.ofList_toList]

theorem dropBytes_append (text more : List Char) : dropBytes (byteLength text) (text ++ more) = more := by
  induction text with
  | nil => cases more <;> simp [dropBytes, byteLength]
  | cons c cs ih =>
    have hpos := c.utf8Size_pos
    rw [List.cons_append, dropBytes, byteLength, if_neg (by omega), Nat.add_sub_cancel_left, ih]

theorem takeBytes_append (text more : List Char) : takeBytes (byteLength text) (text ++ more) = text := by
  induction text with
  | nil => cases more <;> simp [takeBytes, byteLength]
  | cons c cs ih =>
    have hpos := c.utf8Size_pos
    rw [List.cons_append, takeBytes, byteLength, if_neg (by omega), Nat.add_sub_cancel_left, ih]

/-- A part of a text is cut out at the bytes where it starts and stops. -/
theorem charsBetween_append (before text more : List Char) :
    charsBetween (before ++ text ++ more) (byteLength before) (byteLength (before ++ text)) = text := by
  rw [charsBetween, byteLength_append, Nat.add_sub_cancel_left, List.append_assoc, dropBytes_append, takeBytes_append]

/-! ## Lines of a text -/

/-- What stands behind the last newline, or all of a text without newlines. -/
def lastLine (text : List Char) : List Char := text.rtakeWhile (· ≠ '\n')

/-- What stands up to the last newline. -/
def linesBefore (text : List Char) : List Char := text.rdropWhile (· ≠ '\n')

theorem linesBefore_append_lastLine (text : List Char) : linesBefore text ++ lastLine text = text :=
  List.rdropWhile_append_rtakeWhile

theorem lastLine_append (text more : List Char) :
    lastLine (text ++ more) = if '\n' ∈ more then lastLine more else lastLine text ++ more := by
  unfold lastLine
  induction more using List.reverseRecOn with
  | nil => simp
  | append_singleton more c ih =>
    rw [← List.append_assoc, List.rtakeWhile_concat, List.rtakeWhile_concat, ih]
    by_cases hc : c = '\n'
    · simp [hc]
    · by_cases hmore : '\n' ∈ more <;> simp [hc, Ne.symm hc, hmore]

@[simp] theorem lastLine_nil : lastLine [] = [] := rfl

theorem lastLine_of_notMem {text : List Char} (h : '\n' ∉ text) : lastLine text = text := by
  simpa [h] using lastLine_append [] text

theorem linesBefore_append (text more : List Char) :
    linesBefore (text ++ more) = if '\n' ∈ more then text ++ linesBefore more else linesBefore text := by
  unfold linesBefore
  induction more using List.reverseRecOn with
  | nil => simp
  | append_singleton more c ih =>
    rw [← List.append_assoc, List.rdropWhile_concat, List.rdropWhile_concat, ih]
    by_cases hc : c = '\n'
    · simp [hc]
    · by_cases hmore : '\n' ∈ more <;> simp [hc, Ne.symm hc, hmore]

theorem linesBefore_newline (text : List Char) : linesBefore (text ++ ['\n']) = text ++ ['\n'] := by
  unfold linesBefore
  rw [List.rdropWhile_concat_neg _ _ _ (by simp)]

theorem lastNewline?_eq_none {text : List Char} (h : lastNewline? text = none) : '\n' ∉ text := by
  induction text with
  | nil => exact List.not_mem_nil
  | cons c cs ih =>
    rw [lastNewline?] at h
    split at h
    · cases h
    next hcs =>
      split at h
      · cases h
      next hc => exact List.not_mem_cons_of_ne_of_not_mem (Ne.symm hc) (ih hcs)

/-- The last newline is the last character of the lines before the last one. -/
theorem lastNewline?_eq_some {text : List Char} {offset : Nat} (h : lastNewline? text = some offset) :
    '\n' ∈ text ∧ byteLength (linesBefore text) = offset + 1 := by
  induction text generalizing offset with
  | nil => cases h
  | cons c cs ih =>
    rw [lastNewline?] at h
    rw [← List.singleton_append, linesBefore_append]
    split at h
    next found hfound =>
      cases h
      obtain ⟨hmem, hlength⟩ := ih hfound
      rw [if_pos hmem, byteLength_append, hlength]
      exact ⟨List.mem_append_right _ hmem, by simp [byteLength, Nat.add_assoc]⟩
    next hnone =>
      split at h
      next hc =>
        cases h
        subst hc
        rw [if_neg (lastNewline?_eq_none hnone)]
        exact ⟨List.mem_append_left _ (List.mem_singleton_self _), rfl⟩
      · cases h

/-! ## Cursors behind a text -/

/-- The place behind a text. -/
def Position.ofText (text : List Char) : Position where
  offset := byteLength text
  line := 1 + text.count '\n'
  column := 1 + (lastLine text).length

namespace Cursor

/-- The cursor that has passed a text. -/
def ofText (text : List Char) : Cursor where
  offset := byteLength text
  line := 1 + text.count '\n'
  lineStart := byteLength (linesBefore text)

theorem advance_ofText {text : List Char} (h : '\n' ∉ text) (before : List Char) :
    (ofText before).advance text = ofText (before ++ text) := by
  have hcount : text.count '\n' = 0 := List.count_eq_zero.mpr h
  simp [advance, ofText, byteLength_append, linesBefore_append, h, hcount]

theorem newline_ofText (before : List Char) : (ofText before).newline = ofText (before ++ ['\n']) := by
  simp [newline, advance, ofText, byteLength_append, linesBefore_newline, Nat.add_assoc]

theorem comment_ofText (before text : List Char) : (ofText before).comment text = ofText (before ++ text) := by
  unfold comment
  split
  next offset hlast =>
    obtain ⟨hmem, hlength⟩ := lastNewline?_eq_some hlast
    simp [advance, ofText, byteLength_append, linesBefore_append, hmem, hlength, Nat.add_assoc]
  next hnone => exact advance_ofText (lastNewline?_eq_none hnone) before

/-- Columns are counted from the start of the line, whatever stands on it. -/
theorem position_ofText_append (before text rest : List Char) :
    (ofText before).position (before ++ text ++ rest) (byteLength (before ++ text)) =
      ⟨byteLength (before ++ text), 1 + before.count '\n', 1 + (lastLine before ++ text).length⟩ := by
  have hsplit : before ++ text = linesBefore before ++ (lastLine before ++ text) := by
    rw [← List.append_assoc, linesBefore_append_lastLine]
  have hle : byteLength (linesBefore before) ≤ byteLength (before ++ text) := by
    rw [hsplit, byteLength_append]
    exact Nat.le_add_right _ _
  simp only [position, ofText, Nat.min_eq_left hle]
  rw [hsplit, charsBetween_append, Nat.add_comm 1 (List.length _)]

theorem position_ofText (before rest : List Char) :
    (ofText before).position (before ++ rest) (byteLength before) = Position.ofText before := by
  have hplace := position_ofText_append before [] rest
  rwa [List.append_nil, List.append_nil] at hplace

end Cursor

end MiniPascal
