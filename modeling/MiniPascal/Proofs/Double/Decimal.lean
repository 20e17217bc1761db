import Mathlib.Data.List.DropRight
import MiniPascal.Proofs.Double.Bits
import MiniPascal.Proofs.Token.Patterns

/-!
# Decimal text reads back

The digits of a decimal, before and after the point, have its value. Reading them as a double therefore gives what the
decimal is nearest to, and for the decimals that are written this is the double they stand for. A whole number is
written with a `0` behind the point. A double that is none keeps its fraction, since a decimal without one is read as a
whole number.

* `Double.ofDigits_decimal`: the digits of a decimal are read as the decimal.
* `Double.exists_digits`: the text of a finite double, taken apart.
-/

namespace MiniPascal

namespace Double

open Lexer (IsDigits)

/-! ## Digits -/

theorem ofDigitChars_lt {digits : List Char} (h : ∀ c ∈ digits, c.isDigit = true) :
    Nat.ofDigitChars 10 digits 0 < 10 ^ digits.length := by
  induction digits with
  | nil => simp
  | cons c digits ih =>
    have hdigits := ih fun d hd => h d (List.mem_cons_of_mem c hd)
    have hc := Lexer.isDigit_iff.mp (h c List.mem_cons_self)
    have hzero : '0'.toNat = 48 := rfl
    have hle : 10 ^ digits.length * (c.toNat - '0'.toNat) ≤ 10 ^ digits.length * 9 :=
      Nat.mul_le_mul_left _ (by omega)
    rw [Nat.ofDigitChars_cons, Nat.ofDigitChars_eq_ofDigitChars_zero, Nat.mul_zero, Nat.zero_add, List.length_cons,
      Nat.pow_succ]
    omega

theorem isDigits_toDigits (n : Nat) : IsDigits (Nat.toDigits 10 n) :=
  ⟨Nat.toDigits_ne_nil, fun _ hc => Nat.isDigit_of_mem_toDigits (by decide) (by decide) hc⟩

theorem decimalOne_pos : 0 < decimalOne := Nat.pow_pos (by decide)

theorem decimalOne_eq : decimalOne = decimalUnit * one := by
  unfold one
  rw [Nat.one_shiftLeft]
  exact Nat.mul_pow 5 2 places

/-- All places behind the point, also those that are not written. -/
def paddedDigits (decimal : Nat) : List Char := (Nat.toDigits 10 (decimalOne + decimal % decimalOne)).drop 1

theorem fractionDigits_eq (decimal : Nat) : fractionDigits decimal = (paddedDigits decimal).rdropWhile (· == '0') := rfl

theorem isDigit_paddedDigits {decimal : Nat} {c : Char} (h : c ∈ paddedDigits decimal) : c.isDigit = true :=
  (isDigits_toDigits _).2 c (List.mem_of_mem_drop h)

theorem length_toDigits_padded (decimal : Nat) :
    (Nat.toDigits 10 (decimalOne + decimal % decimalOne)).length = places + 1 := by
  have hplaces : 0 < places := by unfold places; decide
  have hlt := Nat.mod_lt decimal decimalOne_pos
  have hone : decimalOne = 10 ^ places := rfl
  have hnext : 10 ^ (places + 1) = 10 ^ places * 10 := Nat.pow_succ ..
  have hle := Nat.length_toDigits_le_iff (b := 10) (n := decimalOne + decimal % decimalOne) (by decide)
    (Nat.succ_pos places)
  have hge := Nat.length_toDigits_le_iff (b := 10) (n := decimalOne + decimal % decimalOne) (by decide) hplaces
  omega

/-- The digit before the places is the `1` that was put there. -/
theorem ofDigitChars_paddedDigits (decimal : Nat) :
    (paddedDigits decimal).length = places ∧
      Nat.ofDigitChars 10 (paddedDigits decimal) 0 = decimal % decimalOne := by
  have hlength := length_toDigits_padded decimal
  have hvalue := Nat.ofDigitChars_ten_toDigits (n := decimalOne + decimal % decimalOne)
  have hdigits : ∀ c ∈ paddedDigits decimal, c.isDigit = true := fun _ hc => isDigit_paddedDigits hc
  unfold paddedDigits at hdigits ⊢
  cases hsplit : Nat.toDigits 10 (decimalOne + decimal % decimalOne) with
  | nil => simp [hsplit] at hlength
  | cons c digits =>
    rw [hsplit, List.length_cons, Nat.add_right_cancel_iff] at hlength
    rw [hsplit] at hvalue hdigits
    have hlt := ofDigitChars_lt hdigits
    rw [Nat.ofDigitChars_cons, Nat.ofDigitChars_eq_ofDigitChars_zero, hlength] at hvalue
    rw [List.drop_one, List.tail_cons, hlength] at hlt
    refine ⟨hlength, ?_⟩
    calc Nat.ofDigitChars 10 digits 0
        = (10 ^ places * (10 * 0 + (c.toNat - '0'.toNat)) + Nat.ofDigitChars 10 digits 0) % 10 ^ places :=
          by rw [Nat.mul_add_mod, Nat.mod_eq_of_lt hlt]
      _ = (decimalOne + decimal % decimalOne) % decimalOne := by rw [hvalue]; rfl
      _ = decimal % decimalOne := by rw [Nat.add_mod_left, Nat.mod_mod]

/-- The zeros that are not written count for nothing but their places. -/
theorem ofDigitChars_fractionDigits (decimal : Nat) :
    (fractionDigits decimal).length ≤ places ∧
      Nat.ofDigitChars 10 (fractionDigits decimal) 0 * 10 ^ (places - (fractionDigits decimal).length) =
        decimal % decimalOne := by
  obtain ⟨hlength, hvalue⟩ := ofDigitChars_paddedDigits decimal
  have hsplit := List.rdropWhile_append_rtakeWhile (p := (· == '0')) (l := paddedDigits decimal)
  rw [← fractionDigits_eq] at hsplit
  have hzeros : (paddedDigits decimal).rtakeWhile (· == '0') =
      List.replicate ((paddedDigits decimal).rtakeWhile (· == '0')).length '0' :=
    List.eq_replicate_of_mem fun c hc => by simpa using List.mem_rtakeWhile_imp hc
  have hlengths := congrArg List.length hsplit
  rw [List.length_append, hlength] at hlengths
  have hmissing : places - (fractionDigits decimal).length = ((paddedDigits decimal).rtakeWhile (· == '0')).length := by
    omega
  refine ⟨by omega, ?_⟩
  rw [← hvalue, ← hsplit, Nat.ofDigitChars_append, hzeros, Nat.ofDigitChars_replicate_zero, hmissing, Nat.mul_comm]

theorem isDigit_fractionDigits {decimal : Nat} {c : Char} (h : c ∈ fractionDigits decimal) : c.isDigit = true :=
  isDigit_paddedDigits ((List.rdropWhile_prefix _ _).mem h)

/-- Nothing is written behind the point of a whole number only. -/
theorem fractionDigits_eq_nil_iff {decimal : Nat} : fractionDigits decimal = [] ↔ decimal % decimalOne = 0 := by
  have hvalue := (ofDigitChars_fractionDigits decimal).2
  constructor
  · intro h
    rw [← hvalue, h]
    simp
  · intro h
    by_contra hne
    -- the last digit that is written is no zero
    have hlast := List.rdropWhile_last_not (· == '0') (paddedDigits decimal) hne
    have hdigit := Lexer.isDigit_iff.mp (isDigit_fractionDigits (List.getLast_mem hne))
    have hsplit := List.dropLast_append_getLast hne
    simp only [← fractionDigits_eq, beq_iff_eq] at hlast
    generalize (fractionDigits decimal).getLast hne = c at hlast hdigit hsplit
    have hzero : Nat.ofDigitChars 10 (fractionDigits decimal) 0 = 0 := by
      rw [h] at hvalue
      exact (Nat.mul_eq_zero.mp hvalue).resolve_right (Nat.ne_of_gt (Nat.pow_pos (by decide)))
    have hchar : c.toNat ≠ '0'.toNat := fun heq => hlast (Char.toNat_inj.mp heq)
    have h48 : '0'.toNat = 48 := rfl
    rw [← hsplit, Nat.ofDigitChars_append, Nat.ofDigitChars_cons, Nat.ofDigitChars_nil] at hzero
    omega

/-- **Digits have the value of their decimal**: read before and after a point, they give what it is nearest to. -/
theorem ofDigits_decimal (decimal : Nat) :
    ofDigits (wholeDigits decimal) (fractionDigits decimal) = nearest decimal decimalUnit := by
  obtain ⟨hlength, hvalue⟩ := ofDigitChars_fractionDigits decimal
  have hscale : 10 ^ (fractionDigits decimal).length * 10 ^ (places - (fractionDigits decimal).length) =
      decimalUnit * one := by
    rw [← Nat.pow_add, Nat.add_sub_cancel' hlength, ← decimalOne_eq]
    rfl
  have hdigits : Nat.ofDigitChars 10 (wholeDigits decimal ++ fractionDigits decimal) 0 *
      10 ^ (places - (fractionDigits decimal).length) = decimal := by
    rw [Nat.ofDigitChars_append, Nat.ofDigitChars_eq_ofDigitChars_zero, wholeDigits, Nat.ofDigitChars_ten_toDigits,
      Nat.add_mul, hvalue, Nat.mul_right_comm, hscale, ← decimalOne_eq, Nat.div_add_mod]
  unfold ofDigits
  rw [← nearest_mul_mul _ _ (Nat.pow_pos (n := places - (fractionDigits decimal).length) (show 0 < 10 by decide)),
    Nat.mul_right_comm, hdigits]
  exact (congrArg _ hscale).trans (nearest_mul_mul decimal decimalUnit one_pos)

/-! ## Whole numbers -/

theorem one_eq : one = 2 ^ places := Nat.one_shiftLeft places

/-- From a certain size on, doubles are whole numbers. -/
theorem units_mod_one_of_le {m : Nat} (h : (places + 1) * fractions ≤ m) : units m % one = 0 := by
  have hexponent : places ≤ m / fractions - 1 := by
    have := (Nat.le_div_iff_mul_le (show 0 < fractions by decide)).mpr h
    omega
  have hhigh : ¬ m < fractions := by
    have := Nat.mul_le_mul_right fractions (show 1 ≤ places + 1 by omega)
    omega
  rw [units, if_neg hhigh, Nat.shiftLeft_eq, one_eq]
  exact Nat.mod_eq_zero_of_dvd (Dvd.dvd.mul_left (Nat.pow_dvd_pow 2 hexponent) _)

theorem div_le_roundHalfEven (n d : Nat) : n / d ≤ roundHalfEven n d := by
  unfold roundHalfEven
  split <;> omega

theorem nearest_of_lt_infinity {n d : Nat} (h : nearest n d < infinity) :
    nearest n d = ((n / d).log2 - 52) * fractions + roundHalfEven n (d <<< ((n / d).log2 - 52)) := by
  simp only [nearest] at h ⊢
  omega

theorem units_of_significand {power s : Nat} (hs : s.log2 = 52) : units (power * fractions + s) = s <<< power := by
  have hne : s ≠ 0 := fun h => by subst h; simp at hs
  obtain ⟨hlow, hhigh⟩ := (Nat.log2_eq_iff hne).mp hs
  have hquotient : (power * fractions + s) / fractions - 1 = power := by unfold fractions; omega
  have hrest : fractions + (power * fractions + s) % fractions = s := by unfold fractions; omega
  rw [units, if_neg (by unfold fractions; omega), hquotient, hrest]

/-- A whole number is nearest to a whole number: to itself while doubles hold it, and to a large one otherwise. -/
theorem units_nearest_mod_one {d : Nat} (h : nearest (d * one) 1 < infinity) :
    units (nearest (d * one) 1) % one = 0 := by
  by_cases hd : d = 0
  · rw [hd, Nat.zero_mul, nearest_eq_zero.mpr rfl]
    rfl
  have hlog : (d * one).log2 = d.log2 + places := by rw [one_eq, ← Nat.shiftLeft_eq, log2_shiftLeft hd]
  have hplaces : 52 ≤ places := by unfold places; decide
  rw [nearest_of_lt_infinity h, Nat.div_one, hlog, Nat.one_shiftLeft]
  by_cases hsmall : d.log2 ≤ 52
  · -- the distance of neighbours divides the unit, so nothing is rounded
    have hexact : d * one = d <<< (52 - d.log2) * 2 ^ (d.log2 + places - 52) := by
      rw [one_eq, Nat.shiftLeft_eq, Nat.mul_assoc, ← Nat.pow_add]
      congr 2
      omega
    have hsignificand : (d <<< (52 - d.log2)).log2 = 52 := by
      rw [log2_shiftLeft hd]
      omega
    rw [hexact, roundHalfEven_mul_left _ (Nat.two_pow_pos _), units_of_significand hsignificand, Nat.shiftLeft_eq,
      ← hexact, Nat.mul_mod_left]
  · apply units_mod_one_of_le
    have hround : fractions ≤ roundHalfEven (d * one) (2 ^ (d.log2 + places - 52)) := by
      refine Nat.le_trans ?_ (div_le_roundHalfEven _ _)
      rw [Nat.le_div_iff_mul_le (Nat.two_pow_pos _)]
      calc fractions * 2 ^ (d.log2 + places - 52)
          = 2 ^ (d * one).log2 := by
            rw [hlog, show fractions = 2 ^ 52 from rfl, ← Nat.pow_add]
            congr 1
            omega
        _ ≤ d * one := Nat.log2_self_le (Nat.mul_ne_zero hd (Nat.ne_of_gt one_pos))
    have hpower := Nat.mul_le_mul_right fractions (show places ≤ d.log2 + places - 52 by omega)
    rw [Nat.add_mul, Nat.one_mul]
    exact Nat.add_le_add hpower hround

/-! ## Texts -/

/-- The digits of a whole number and a `0` behind the point. -/
theorem ofDigits_whole {m : Nat} (hm : m < infinity) (hwhole : units m % one = 0) :
    fractionDigits (exactly m) = [] ∧ ofDigits (wholeDigits (exactly m)) ['0'] = m := by
  obtain ⟨k, hk⟩ := Nat.dvd_of_mod_eq_zero hwhole
  have hexactly : exactly m = k * decimalOne := by
    rw [exactly, hk, decimalOne_eq, Nat.mul_comm one, Nat.mul_assoc, Nat.mul_comm one]
  refine ⟨fractionDigits_eq_nil_iff.mpr (by rw [hexactly, Nat.mul_mod_left]), ?_⟩
  rw [ofDigits, wholeDigits, hexactly, Nat.mul_div_cancel _ decimalOne_pos, Nat.ofDigitChars_append,
    Nat.ofDigitChars_ten_toDigits]
  calc nearest (10 * k * one) 10
      = nearest (k * one * 10) (1 * 10) := by rw [Nat.mul_assoc, Nat.mul_comm 10]
    _ = nearest (units m) 1 := by rw [nearest_mul_mul _ _ (by decide), hk, Nat.mul_comm]
    _ = m := nearest_units hm

/-- The decimal that reads back as no whole number is none itself. -/
theorem fractionDigits_shortest_ne_nil {m : Nat} (hm : m < infinity) (hwhole : units m % one ≠ 0) :
    fractionDigits (shortest m) ≠ [] := by
  intro hnil
  obtain ⟨d, hd⟩ := Nat.dvd_of_mod_eq_zero (fractionDigits_eq_nil_iff.mp hnil)
  have hnearest : nearest (d * one) 1 = m := by
    calc nearest (d * one) 1
        = nearest (d * one * decimalUnit) (1 * decimalUnit) := (nearest_mul_mul _ _ decimalUnit_pos).symm
      _ = nearest (shortest m) decimalUnit := by
        rw [hd, decimalOne_eq, Nat.one_mul, Nat.mul_comm d, Nat.mul_right_comm, Nat.mul_comm one]
      _ = m := nearest_shortest hm
  rw [← hnearest] at hm hwhole
  exact hwhole (units_nearest_mod_one hm)

/-- **The text of a finite double** is its sign, digits, a point and digits, which are read as its magnitude. -/
theorem exists_digits {x : Double} (hx : x.isFinite = true) :
    ∃ whole fraction, IsDigits whole ∧ IsDigits fraction ∧
      x.text = x.signText ++ String.ofList (whole ++ '.' :: fraction) ∧ ofDigits whole fraction = x.magnitude := by
  have hm : x.magnitude < infinity := by simpa [isFinite] using hx
  by_cases hwhole : units x.magnitude % one = 0
  · obtain ⟨hnil, hdigits⟩ := ofDigits_whole hm hwhole
    refine ⟨wholeDigits (exactly x.magnitude), ['0'], isDigits_toDigits _, ⟨by simp, by simp⟩, ?_, hdigits⟩
    have hpoint : String.ofList ('.' :: ['0']) = ".0" := rfl
    rw [text, if_pos (by simp [hx, isWhole, hwhole]), decimalText, hnil, String.ofList_append, hpoint,
      String.append_assoc]
  · have hfraction := fractionDigits_shortest_ne_nil hm hwhole
    refine ⟨wholeDigits (shortest x.magnitude), fractionDigits (shortest x.magnitude), isDigits_toDigits _,
      ⟨hfraction, fun _ hc => isDigit_fractionDigits hc⟩, ?_, ?_⟩
    · rw [text, if_neg (by simp [isWhole, hwhole]), shortText, if_pos hx, decimalText]
      split
      next hnil => exact absurd hnil hfraction
      next => rfl
    · rw [ofDigits_decimal, nearest_shortest hm]

end Double

end MiniPascal
