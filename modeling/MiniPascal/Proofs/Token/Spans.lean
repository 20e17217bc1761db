import Mathlib.Data.String.Basic
import MiniPascal.Proofs.Token.Composition

/-!
# Tokens rebuild their text

A text that can be read is tiled by its tokens: before each of them and behind the last one stands trivia, and nothing
else (`Lexer.Tiles`). So the byte offsets of the tokens cut the text into pieces from which it can be put together
again. Without the trivia the pieces are what is left of the text when blanks and comments are removed from it by a scan
of its own (`withoutTrivia`), which knows no tokens.

* `Lexer.tiles_of_tokenize`: the tokens of a text tile it.
* `tokenize_rebuilds`: order, gaps and texts of the tokens.
-/

namespace MiniPascal

/-! ## Pieces of a text -/

/-- The text between two byte offsets. -/
def slice (source : String) (start stop : Nat) : String := String.Pos.Raw.extract source ⟨start⟩ ⟨stop⟩

/-- The piece of its source that a token stands for. -/
def Lexeme.text (source : String) (t : Lexeme) : String := slice source t.position.offset t.stop

/-- What stands before each of the tokens, from the end of the one before it; the first one follows `stop`. -/
def gaps (source : String) : Nat → List Lexeme → List String
  | _, [] => []
  | stop, t :: ts => slice source stop t.position.offset :: gaps source t.stop ts

/-- The offset lies between two characters, or at an end of the text. -/
def IsBoundary (source : String) (offset : Nat) : Prop := (⟨offset⟩ : String.Pos.Raw).IsValid source

theorem utf8Len_eq (text : List Char) : String.utf8Len text = byteLength text := by
  induction text with
  | nil => rfl
  | cons c cs ih => rw [String.utf8Len_cons, byteLength, ih, Nat.add_comm]

theorem slice_of_split {source : String} {before text after : List Char} (h : source.toList = before ++ text ++ after) :
    slice source (byteLength before) (byteLength (before ++ text)) = String.ofList text := by
  rw [slice, ← String.ofList_toList (s := source), h, byteLength_append, ← utf8Len_eq, ← utf8Len_eq]
  exact String.extract_of_valid before text after

theorem isBoundary_of_split {source : String} {before after : List Char} (h : source.toList = before ++ after) :
    IsBoundary source (byteLength before) := by
  refine String.Pos.Raw.isValid_iff_exists_append.mpr ⟨String.ofList before, String.ofList after, ?_, ?_⟩
  · rw [← String.ofList_append, ← h, String.ofList_toList]
  · rw [byteLength_eq]
    rfl

/-! ## Texts without trivia -/

/-- What is left of a text without blanks and comments, in one pass from left to right that remembers whether it is
inside a comment. -/
def stripped : (inComment : Bool) → List Char → List Char
  | _, [] => []
  | true, c :: cs => stripped (c ≠ '\x7d') cs
  | false, c :: cs =>
    if c = '\x7b' then stripped true cs
    else if c ∈ [' ', '\t', '\r', '\x0c', '\n'] then stripped false cs
    else c :: stripped false cs

def withoutTrivia (source : String) : String := String.ofList (stripped false source.toList)

namespace Lexer

theorem isBlank_iff {c : Char} : isBlank c = true ↔ c ∈ [' ', '\t', '\r', '\x0c', '\n'] := by
  simp [isBlank, or_assoc]

theorem stripped_blank {c : Char} (h : isBlank c = true) (cs : List Char) :
    stripped false (c :: cs) = stripped false cs := by
  have hopen : c ≠ '\x7b' := by
    rintro rfl
    cases h
  rw [stripped, if_neg hopen, if_pos (isBlank_iff.mp h)]

theorem stripped_inside {body : List Char} (h : '\x7d' ∉ body) (rest : List Char) :
    stripped true (body ++ '\x7d' :: rest) = stripped false rest := by
  induction body with
  | nil => simp [stripped]
  | cons c cs ih =>
    obtain ⟨hc, hcs⟩ := not_or.mp (mt List.mem_cons.mpr h)
    rw [List.cons_append, stripped, decide_eq_true (Ne.symm hc), ih hcs]

theorem stripped_trivia {skipped : List Char} (h : IsTrivia skipped) (rest : List Char) :
    stripped false (skipped ++ rest) = stripped false rest := by
  induction h with
  | nil => rfl
  | blank hc _ ih => rw [List.cons_append, stripped_blank hc, ih]
  | comment hbody _ ih =>
    rw [List.cons_append, stripped, if_pos rfl, List.append_assoc, List.cons_append, stripped_inside hbody, ih]

theorem stripped_dense {text : List Char} (h : IsDense text) (rest : List Char) :
    stripped false (text ++ rest) = text ++ stripped false rest := by
  induction text with
  | nil => rfl
  | cons c cs ih =>
    obtain ⟨⟨hblank, hcomment⟩, hcs⟩ := List.forall_mem_cons.mp h
    have hopen : c ≠ '\x7b' := by
      rw [← Bool.not_eq_true, opensComment_iff] at hcomment
      exact hcomment
    rw [← Bool.not_eq_true, isBlank_iff] at hblank
    rw [List.cons_append, stripped, if_neg hopen, if_neg hblank, ih hcs, List.cons_append]

/-! ## Texts of tokens -/

/-- Trivia and the end of input are not found in a text, only behind it. -/
theorem Pattern.Makes.ordinary {p : Pattern} {text : List Char} {token : Token} (h : p.Makes text (.ok token)) :
    token ≠ .endOfInput ∧ token ≠ .comment ∧ token ≠ .newline := by
  cases h <;> simp

theorem exists_match_of_result {c : Char} {cs : List Char} {token : Token} (h : (reading c cs).result = .ok token) :
    ∃ p : Pattern, p.Matches (reading c cs).text ∧ p.Makes (reading c cs).text (.ok token) := by
  rcases reading_cases c cs with ⟨p, hlongest, hmakes⟩ | ⟨-, hfault, -⟩
  · exact ⟨p, hlongest.matched, h ▸ hmakes⟩
  · rw [h] at hfault
    cases hfault

/-! ## Tilings -/

/-- The tokens tile `remaining`, which stands behind `before` in its source: with trivia before each of them, and the
end of input at the end. -/
inductive Tiles : List Char → List Char → List Lexeme → Prop
  | endOfInput {before skipped : List Char} {t : Lexeme} : IsTrivia skipped → t.token = .endOfInput →
      t.position.offset = byteLength (before ++ skipped) → t.stop = byteLength (before ++ skipped) →
      Tiles before skipped [t]
  | token {before skipped text rest : List Char} {t : Lexeme} {ts : List Lexeme} : IsTrivia skipped →
      text ≠ [] → IsDense text → t.token ≠ .endOfInput ∧ t.token ≠ .comment ∧ t.token ≠ .newline →
      t.position.offset = byteLength (before ++ skipped) → t.stop = byteLength (before ++ skipped ++ text) →
      Tiles (before ++ skipped ++ text) rest ts → Tiles before (skipped ++ text ++ rest) (t :: ts)

theorem Reading.of_locate {r : Reading} {p : Position} {t : Lexeme} (h : r.locate p = .ok t) :
    r.result = .ok t.token ∧ t.stop = p.offset + byteLength r.text := by
  unfold Reading.locate at h
  cases hresult : r.result with
  | error fault => rw [hresult] at h; cases h
  | ok token =>
    rw [hresult] at h
    cases h
    exact ⟨rfl, rfl⟩

section Counted

variable {consumed : List Char} {lexer : Lexer} {t : Lexeme}

/-- A token and the trivia before it are taken up together. -/
theorem Counted.exists_tile (h : Counted consumed lexer) (ht : lexer.nextToken.1 = .ok t)
    (hne : t.token ≠ .endOfInput) :
    ∃ skipped text, Counted (consumed ++ skipped ++ text) lexer.nextToken.2 ∧
      ∀ ts, Tiles (consumed ++ skipped ++ text) lexer.nextToken.2.rest ts → Tiles consumed lexer.rest (t :: ts) := by
  obtain ⟨c, cs, hrest, -⟩ := trivia_of_token ht hne
  have hsplit : lexer.rest = (trivia lexer.rest).1 ++ (reading c cs).text ++ (reading c cs).rest := by
    rw [List.append_assoc, reading_append, ← hrest, trivia_append]
  have hposition := h.position_of_nextToken ht
  rw [nextToken_of_cons hrest] at ht ⊢
  obtain ⟨hresult, hstop⟩ := Reading.of_locate ht
  obtain ⟨p, hmatches, hmakes⟩ := exists_match_of_result hresult
  refine ⟨(trivia lexer.rest).1, (reading c cs).text, ⟨?_, ?_⟩, fun ts hts => ?_⟩
  · rw [h.split, List.append_assoc, List.append_assoc, ← List.append_assoc _ _ (reading c cs).rest, ← hsplit]
  · rw [h.behindTrivia, Cursor.advance_ofText hmatches.isDense.newline_notMem]
  · rw [hsplit]
    refine .token (isTrivia_trivia _) (reading_text_ne_nil c cs) hmatches.isDense hmakes.ordinary ?_ ?_ hts
    · rw [hposition, h.start, Position.ofText]
    · rw [hstop, h.start, Position.ofText, byteLength_append (_ ++ _)]

theorem Counted.tiles_endOfInput (h : Counted consumed lexer) (ht : lexer.nextToken.1 = .ok t)
    (hlast : t.token = .endOfInput) : Tiles consumed lexer.rest [t] := by
  have hrest := trivia_of_endOfInput ht hlast
  have hskipped : (trivia lexer.rest).1 = lexer.rest := by
    rw [← List.append_nil (trivia lexer.rest).1, ← hrest, trivia_append]
  have hstart := h.start
  rw [hskipped] at hstart
  rw [nextToken_of_nil hrest, h.endOfInput_of_nil hrest, hstart] at ht
  cases ht
  exact .endOfInput (isTrivia_of_trivia_nil hrest) rfl rfl rfl

end Counted

theorem Yields.tiles {consumed : List Char} {lexer last : Lexer} {ts : List Lexeme} {stop : Lexeme}
    (h : Yields lexer ts last) (hcounted : Counted consumed lexer) (hstop : last.nextToken.1 = .ok stop)
    (hlast : stop.token = .endOfInput) : Tiles consumed lexer.rest (ts ++ [stop]) := by
  induction h generalizing consumed with
  | nil => exact hcounted.tiles_endOfInput hstop hlast
  | cons hnext hne _ ih =>
    obtain ⟨skipped, text, hcounted', htile⟩ := hcounted.exists_tile hnext hne
    exact htile _ (ih hcounted' hstop)

theorem tiles_of_tokenize {source : String} {all : List Lexeme} (h : tokenize source = .ok all) :
    Tiles [] source.toList all := by
  obtain ⟨ts, last, stop, hyields, hstop, hlast, rfl⟩ := exists_yields_of_tokenize h
  exact hyields.tiles (.ofString source) hstop hlast

/-! ## What a tiling says -/

theorem byteLength_pos {text : List Char} (h : text ≠ []) : 0 < byteLength text := by
  cases text with
  | nil => exact absurd rfl h
  | cons c cs =>
    rw [byteLength]
    exact Nat.add_pos_left c.utf8Size_pos _

namespace Tiles

variable {source : String} {before remaining : List Char} {all : List Lexeme}

/-- There is one end of input, behind all the text, and every other token takes up some of it. -/
theorem exists_concat (h : Tiles before remaining all) :
    ∃ ts stop, all = ts ++ [stop] ∧ stop.token = .endOfInput ∧
      stop.position.offset = byteLength (before ++ remaining) ∧ stop.stop = byteLength (before ++ remaining) ∧
      ∀ t ∈ ts, (t.token ≠ .endOfInput ∧ t.token ≠ .comment ∧ t.token ≠ .newline) ∧ t.position.offset < t.stop := by
  induction h with
  | @endOfInput before skipped t _ htoken hposition hstop =>
    exact ⟨[], t, rfl, htoken, hposition, hstop, by simp⟩
  | @token before skipped text rest t ts _ htext _ hordinary hposition hstop _ ih =>
    obtain ⟨ts, last, rfl, htoken, hoffset, hend, hts⟩ := ih
    have hspan : t.position.offset < t.stop := by
      rw [hposition, hstop, byteLength_append (before ++ skipped)]
      exact Nat.lt_add_of_pos_right (byteLength_pos htext)
    rw [List.append_assoc, List.append_assoc, ← List.append_assoc skipped] at hoffset hend
    exact ⟨t :: ts, last, rfl, htoken, hoffset, hend, List.forall_mem_cons.mpr ⟨⟨hordinary, hspan⟩, hts⟩⟩

/-- A token cuts its source before its text and behind it. -/
theorem splits_of_tile {skipped text rest : List Char} (h : source.toList = before ++ (skipped ++ text ++ rest)) :
    source.toList = before ++ skipped ++ (text ++ rest) ∧ source.toList = before ++ skipped ++ text ++ rest := by
  simp [h]

theorem le_offset (h : Tiles before remaining all) : ∀ t ∈ all, byteLength before ≤ t.position.offset := by
  induction h with
  | endOfInput _ _ hposition _ =>
    refine List.forall_mem_singleton.mpr ?_
    rw [hposition, byteLength_append]
    exact Nat.le_add_right _ _
  | token _ _ _ _ hposition _ _ ih =>
    refine List.forall_mem_cons.mpr ⟨?_, fun u hu => ?_⟩
    · rw [hposition, byteLength_append]
      exact Nat.le_add_right _ _
    · have hle := ih u hu
      rw [byteLength_append, byteLength_append] at hle
      omega

theorem pairwise (h : Tiles before remaining all) : all.Pairwise (fun t u => t.stop ≤ u.position.offset) := by
  induction h with
  | endOfInput => exact List.pairwise_singleton _ _
  | token _ _ _ _ _ hstop hts ih =>
    rw [List.pairwise_cons, hstop]
    exact ⟨hts.le_offset, ih⟩

theorem isBoundary (h : Tiles before remaining all) (hsource : source.toList = before ++ remaining) :
    ∀ t ∈ all, IsBoundary source t.position.offset ∧ IsBoundary source t.stop := by
  induction h with
  | endOfInput _ _ hposition hstop =>
    rw [← List.append_nil (_ ++ _)] at hsource
    rw [List.forall_mem_singleton, hposition, hstop]
    exact ⟨isBoundary_of_split hsource, isBoundary_of_split hsource⟩
  | @token before skipped text rest t ts _ _ _ _ hposition hstop _ ih =>
    obtain ⟨hahead, hbehind⟩ := splits_of_tile hsource
    refine List.forall_mem_cons.mpr ⟨?_, ih hbehind⟩
    rw [hposition, hstop]
    exact ⟨isBoundary_of_split hahead, isBoundary_of_split hbehind⟩

theorem isTrivia_gaps (h : Tiles before remaining all) (hsource : source.toList = before ++ remaining) :
    ∀ gap ∈ gaps source (byteLength before) all, IsTrivia gap.toList := by
  induction h with
  | endOfInput hskipped _ hposition _ =>
    rw [← List.append_nil (_ ++ _)] at hsource
    rw [gaps, gaps, hposition, slice_of_split hsource, List.forall_mem_singleton, String.toList_ofList]
    exact hskipped
  | @token before skipped text rest t ts hskipped _ _ _ hposition hstop _ ih =>
    obtain ⟨hahead, hbehind⟩ := splits_of_tile hsource
    rw [gaps, hposition, hstop, slice_of_split hahead]
    refine List.forall_mem_cons.mpr ⟨?_, ih hbehind⟩
    rwa [String.toList_ofList]

/-- The texts of the tokens are what is left without the trivia. -/
theorem texts (h : Tiles before remaining all) (hsource : source.toList = before ++ remaining) :
    (all.filter (·.token ≠ .endOfInput)).flatMap (fun t => (t.text source).toList) = stripped false remaining := by
  induction h with
  | @endOfInput before skipped t hskipped htoken _ _ =>
    rw [List.filter_cons_of_neg (by simp [htoken]), ← List.append_nil skipped, stripped_trivia hskipped]
    rfl
  | @token before skipped text rest t ts hskipped _ hdense hordinary hposition hstop _ ih =>
    have hbehind := (splits_of_tile hsource).2
    have htext : t.text source = String.ofList text := by
      rw [Lexeme.text, hposition, hstop, slice_of_split hbehind]
    rw [List.filter_cons_of_pos (by simp [hordinary.1]), List.flatMap_cons, ih hbehind, htext, String.toList_ofList,
      List.append_assoc, stripped_trivia hskipped, stripped_dense hdense]

end Tiles

end Lexer

open Lexer

/-- **Tokens rebuild their text.** They come in order and without overlap, with one end of input behind all of them;
between them stands nothing but trivia, and their texts make up the source without blanks and comments. -/
theorem tokenize_rebuilds {source : String} {all : List Lexeme} (h : tokenize source = .ok all) :
    (∃ ts stop, all = ts ++ [stop] ∧ stop.token = .endOfInput ∧ stop.position.offset = source.utf8ByteSize ∧
      stop.stop = source.utf8ByteSize ∧
      ∀ t ∈ ts, (t.token ≠ .endOfInput ∧ t.token ≠ .comment ∧ t.token ≠ .newline) ∧ t.position.offset < t.stop) ∧
    all.Pairwise (fun t u => t.stop ≤ u.position.offset) ∧
    (∀ t ∈ all, IsBoundary source t.position.offset ∧ IsBoundary source t.stop) ∧
    (∀ gap ∈ gaps source 0 all, IsTrivia gap.toList) ∧
    String.join ((all.filter (·.token ≠ .endOfInput)).map (Lexeme.text source)) = withoutTrivia source := by
  have htiles := tiles_of_tokenize h
  refine ⟨?_, htiles.pairwise, htiles.isBoundary rfl, htiles.isTrivia_gaps rfl, ?_⟩
  · rw [← byteLength_toList]
    exact htiles.exists_concat
  · rw [String.join_eq, List.map_map, withoutTrivia, ← htiles.texts rfl, List.flatMap_def]
    rfl

/-- A comment that opens another one and holds what would be tokens outside of it. -/
theorem tokenize_rebuilds_comments :
    let source := "x:=\x7b\x7bé 'y' 1\n\x7d 1.5;\t\x7b\x7d"
    let all := (tokenize source).toOption.getD []
    tokenize source = .ok all ∧
      gaps source 0 all = ["", "", "\x7b\x7bé 'y' 1\n\x7d ", "", "\t\x7b\x7d"] ∧
      (∀ gap ∈ gaps source 0 all, IsTrivia gap.toList) ∧ all.Pairwise (fun t u => t.stop ≤ u.position.offset) ∧
      (all.filter (·.token ≠ .endOfInput)).map (Lexeme.text source) = ["x", ":=", "1.5", ";"] ∧
      withoutTrivia source = "x:=1.5;" := by
  intro source all
  have htokens : tokenize source = .ok all := by decide +kernel
  have hgaps : gaps source 0 all = ["", "", "\x7b\x7bé 'y' 1\n\x7d ", "", "\t\x7b\x7d"] := by decide +kernel
  have htexts : (all.filter (·.token ≠ .endOfInput)).map (Lexeme.text source) = ["x", ":=", "1.5", ";"] := by
    decide +kernel
  obtain ⟨-, hordered, -, htrivia, hjoin⟩ := tokenize_rebuilds htokens
  rw [htexts] at hjoin
  exact ⟨htokens, hgaps, htrivia, hordered, htexts, hjoin.symm⟩

end MiniPascal
