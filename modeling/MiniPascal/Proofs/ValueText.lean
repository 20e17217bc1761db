import MiniPascal.Proofs.Access
import MiniPascal.Proofs.Double.Decimal
import MiniPascal.Proofs.Evaluation.Integers
import MiniPascal.Proofs.Interpreter
import MiniPascal.Proofs.Syntax.Printer
import MiniPascal.Proofs.Token.Words

/-!
# Values read back

The text of a value is a sign, if it is negative, and a number: digits for an integer, and digits with a point among
them for a real. Read as an expression, the number is one constant of the kind of the value (`Writes`), and the sign is
the operator that turns it into its opposite. The least integer is the only one whose digits are out of range.

* `evaluateExpression_of_writes`, `evaluateExpression_minus`: the value of a number without and with a sign.
* `evaluateExpression_valueText`: the text of a value has this value.
-/

namespace MiniPascal

open Lexer

/-! ## Numbers -/

/-- The characters are read as one constant, up to their end. -/
def Writes (number : List Char) (value : Value) : Prop :=
  ∃ c cs, number = c :: cs ∧ c.isDigit = true ∧ reading c cs = ⟨c :: cs, .ok value.token, []⟩

theorem writes_integer {digits : List Char} (h : IsDigits digits) {n : Integer}
    (hn : Integer.ofInt? (Nat.ofDigitChars 10 digits 0) = some n) : Writes digits (.integer n) := by
  obtain ⟨c, cs, rfl⟩ := List.exists_cons_of_ne_nil h.1
  have hc : c.isDigit = true := h.2 c List.mem_cons_self
  refine ⟨c, cs, rfl, hc, ?_⟩
  rw [reading_of_isDigit hc, readNumber_of_digits h.2, readInteger, hn]
  rfl

theorem writes_real {whole fraction : List Char} (hwhole : IsDigits whole) (hfraction : IsDigits fraction)
    (hfinite : Double.ofDigits whole fraction < Double.infinity) :
    Writes (whole ++ '.' :: fraction) (.real (.ofMagnitude false (Double.ofDigits whole fraction))) := by
  obtain ⟨c, cs, rfl⟩ := List.exists_cons_of_ne_nil hwhole.1
  obtain ⟨d, ds, rfl⟩ := List.exists_cons_of_ne_nil hfraction.1
  have hc : c.isDigit = true := hwhole.2 c List.mem_cons_self
  have hd : d.isDigit = true := hfraction.2 d List.mem_cons_self
  have hpoint : ((c :: cs) ++ '.' :: d :: ds).dropWhile Char.isDigit = '.' :: d :: ds := by
    rw [List.dropWhile_append_of_pos hwhole.2, List.dropWhile_cons_of_neg (by decide)]
  refine ⟨c, cs ++ '.' :: d :: ds, rfl, hc, ?_⟩
  rw [reading_of_isDigit hc, ← List.cons_append, readNumber_of_fraction hpoint hd,
    takeWhile_append hwhole.2 (ends_point _), List.takeWhile_eq_self_iff.mpr hfraction.2,
    List.dropWhile_eq_nil_iff.mpr hfraction.2, readReal, if_pos hfinite]
  rfl

/-! ## Tokens -/

theorem Writes.tokens {number : List Char} {value : Value} (h : Writes number value) {lexer : Lexer}
    (hrest : lexer.rest = number) :
    ∃ t stop, lexer.tokens = .ok [t, stop] ∧ t.token = value.token ∧ stop.token = .endOfInput := by
  obtain ⟨c, cs, rfl, hc, hreading⟩ := h
  exact tokens_of_number hrest hc hreading (by cases value <;> simp [Value.token])

theorem tokens_minus {lexer : Lexer} {cs : List Char} (h : lexer.rest = '-' :: cs) :
    ∃ (t : Lexeme) (next : Lexer),
      lexer.tokens = next.tokens.map (t :: ·) ∧ t.token = .mark .minus ∧ next.rest = cs := by
  have hsettled : (trivia lexer.rest).2 = '-' :: cs := by
    rw [h, trivia_of_settled (settled_cons rfl fun hopen => by cases hopen)]
  have hreading : reading '-' cs = ⟨['-'], .ok (.mark .minus), cs⟩ := by
    rw [reading_of_single rfl rfl rfl (fun hcolon => by cases hcolon)]
    rfl
  have hnext := nextToken_of_cons hsettled
  rw [hreading] at hnext
  exact ⟨_, _, tokens_of_token (congrArg Prod.fst hnext) (fun h => by cases h), rfl, by rw [hnext]⟩

/-! ## Evaluation -/

/-- A factor with nothing to read that is followed by the end of input has its own value. -/
theorem evaluateExpression_of_factor {source : String} {w : List Lexeme} {stop : Lexeme} {tree : Expr}
    (hfactor : Grammar.FactorOf w tree) (hreads : tree.accesses = []) (hstop : stop.token = .endOfInput)
    (htokens : tokenize source = .ok (w ++ [stop])) :
    evaluateExpression source = ((Context.ofStore .empty).eval tree).mapError .runtime := by
  have hword : Grammar.ExpressionOf w tree := .term (.factor hfactor)
  have hend : UpToEnd (w ++ [stop]) w :=
    ⟨Grammar.endFree_expressionOf hword, .inr ⟨stop, [], hstop, (List.append_nil _).symm⟩⟩
  refine evaluateExpression_of_sound htokens (Parser.parseExpression_eq_ok.mpr ⟨w, hend, hword⟩) ?_
  rw [Analysis.result_checkExpr_eq_ok, hreads]
  nofun

theorem evaluateExpression_of_writes {number : List Char} {value : Value} (h : Writes number value) :
    evaluateExpression (String.ofList number) = .ok value := by
  have hrest : (ofString (String.ofList number)).rest = number := String.toList_ofList
  obtain ⟨t, stop, htokens, ht, hstop⟩ := h.tokens hrest
  have hfactor : Grammar.FactorOf [t] (.literal value t.line) := .constant ht
  rw [evaluateExpression_of_factor hfactor rfl hstop htokens]
  rfl

/-- A number behind a minus is turned into its opposite. -/
theorem evaluateExpression_minus {number : List Char} {value opposite : Value} (h : Writes number value)
    (hopposite : ∀ line, UnaryOperator.minus.apply value line = .ok opposite) :
    evaluateExpression ("-" ++ String.ofList number) = .ok opposite := by
  have hrest : (ofString ("-" ++ String.ofList number)).rest = '-' :: number := by simp [ofString]
  obtain ⟨sign, next, htokens, hsign, hnext⟩ := tokens_minus hrest
  obtain ⟨t, stop, hnumber, ht, hstop⟩ := h.tokens hnext
  rw [hnumber] at htokens
  have hfactor : Grammar.FactorOf [sign, t] (.unary .minus (.literal value t.line) sign.line) :=
    .sign hsign (.constant ht)
  rw [evaluateExpression_of_factor hfactor rfl hstop htokens]
  exact congrArg (Except.mapError Fault.runtime) (hopposite sign.line)

/-! ## The values -/

theorem evaluateExpression_integerText {n : Integer} (hn : n ≠ Int64.minValue) :
    evaluateExpression n.text = .ok (.integer n) := by
  cases hcase : n.toInt with
  | ofNat m =>
    have htext : n.text = String.ofList (Nat.toDigits 10 m) := by
      rw [Integer.text, hcase, ← Nat.toString_eq_ofList_toDigits]
      rfl
    have hread : Integer.ofInt? (Nat.ofDigitChars 10 (Nat.toDigits 10 m) 0) = some n := by
      rw [Nat.ofDigitChars_ten_toDigits, Integer.ofInt?_eq_some_iff, hcase]
      rfl
    rw [htext, evaluateExpression_of_writes (writes_integer (Double.isDigits_toDigits m) hread)]
  | negSucc m =>
    have htext : n.text = "-" ++ String.ofList (Nat.toDigits 10 (m + 1)) := by
      rw [Integer.text, hcase, ← Nat.toString_eq_ofList_toDigits]
      rfl
    have hrange : Integer.InRange (m + 1 : Nat) := by
      have hlow := Integer.inRange_iff.mp (Integer.inRange_toInt n)
      have hmin : n.toInt ≠ -9223372036854775808 := fun h => hn (Int64.toInt_inj.mp h)
      rw [Integer.inRange_iff]
      omega
    have hread : Integer.ofInt? (Nat.ofDigitChars 10 (Nat.toDigits 10 (m + 1)) 0) =
        some (Int64.ofInt (m + 1 : Nat)) := by
      rw [Nat.ofDigitChars_ten_toDigits, Integer.ofInt?_eq_some_iff, Integer.toInt_ofInt hrange]
    rw [htext]
    refine evaluateExpression_minus (writes_integer (Double.isDigits_toDigits (m + 1)) hread) fun line => ?_
    have hopposite : Integer.ofInt? (-(Int64.ofInt (m + 1 : Nat)).toInt) = some n := by
      rw [Integer.ofInt?_eq_some_iff, hcase, Integer.toInt_ofInt hrange]
      rfl
    rw [UnaryOperator.apply, Arithmetic.checked, hopposite]

theorem evaluateExpression_realText {x : Double} (hx : x.isFinite = true) :
    evaluateExpression x.text = .ok (.real x) := by
  obtain ⟨whole, fraction, hwhole, hfraction, htext, hdigits⟩ := Double.exists_digits hx
  have hfinite : x.magnitude < Double.infinity := of_decide_eq_true hx
  have hwrites := writes_real hwhole hfraction (hdigits ▸ hfinite)
  have hvalue := x.ofMagnitude_magnitude
  rw [htext, Double.signText]
  rw [hdigits] at hwrites
  cases hsign : x.isNegative with
  | false =>
    rw [hsign] at hvalue
    rw [hvalue] at hwrites
    rw [if_neg (by decide), String.empty_append, evaluateExpression_of_writes hwrites]
  | true =>
    rw [hsign, ← Double.neg_ofMagnitude hfinite.le] at hvalue
    rw [if_pos rfl]
    refine evaluateExpression_minus hwrites fun line => ?_
    rw [UnaryOperator.apply, hvalue]

/-- **Values read back**: the text of an integer other than the least one, and of a finite real, evaluates to the value
itself, bit for bit, so that a zero keeps its sign. The digits of the least integer are out of range. -/
theorem evaluateExpression_valueText :
    (∀ n : Integer, n ≠ Int64.minValue → evaluateExpression (Value.integer n).text = .ok (.integer n)) ∧
    (∀ x : Double, x.isFinite = true → evaluateExpression (Value.real x).text = .ok (.real x)) ∧
    evaluateExpression (Value.integer Int64.minValue).text =
      .error (.lexical ⟨.integerOutOfRange "9223372036854775808", 1, 2⟩) :=
  ⟨fun _ => evaluateExpression_integerText, fun _ => evaluateExpression_realText, by decide +kernel⟩

/-- The least integer that reads back, and the zero with a sign. -/
theorem evaluateExpression_valueText_negative :
    ((Value.integer (-9223372036854775807)).text = "-9223372036854775807" ∧
      evaluateExpression "-9223372036854775807" = .ok (.integer (-9223372036854775807))) ∧
    ((Value.real (.ofMagnitude true 0)).text = "-0.0" ∧
      evaluateExpression "-0.0" = .ok (.real (.ofMagnitude true 0))) := by
  have hleast : (Value.integer (-9223372036854775807)).text = "-9223372036854775807" := by decide +kernel
  have hzero : (Value.real (.ofMagnitude true 0)).text = "-0.0" := by decide +kernel
  obtain ⟨hinteger, hreal, -⟩ := evaluateExpression_valueText
  refine ⟨⟨hleast, ?_⟩, hzero, ?_⟩
  · rw [← hleast, hinteger _ (by decide)]
  · rw [← hzero, hreal _ (by decide +kernel)]

end MiniPascal
