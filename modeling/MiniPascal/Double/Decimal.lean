import MiniPascal.Double.Basic

/-!
# Decimal text of doubles

A decimal is counted in units of `10 ^ -places`, fine enough to hold every finite double exactly (`Double.exactly`). The
text of a double is never in exponent form. It has the fewest digits that read back as the same double, and of those the
ones nearest to it (`Double.shortest`); only a whole number that is written as a value keeps all of its digits.

* `Double.nearest_exactly`, `Double.nearest_shortest`: both decimals read back as the double they stand for.
-/

namespace MiniPascal

namespace Double

/-! ## Reading -/

/-- The magnitude nearest to the decimal with these digits before and after the point. -/
def ofDigits (whole fraction : List Char) : Nat :=
  nearest (Nat.ofDigitChars 10 (whole ++ fraction) 0 * one) (Nat.pow 10 fraction.length)

/-! ## The fewest digits -/

/-- The number one as a decimal. -/
def decimalOne : Nat := Nat.pow 10 places

/-- The unit of doubles as a decimal. -/
def decimalUnit : Nat := Nat.pow 5 places

/-- The value of a finite magnitude as a decimal. -/
def exactly (magnitude : Nat) : Nat := units magnitude * decimalUnit

/-- Whether a decimal is read as this magnitude. -/
def readsAs (decimal magnitude : Nat) : Bool := nearest decimal decimalUnit == magnitude

/-- The multiple of `step` next to `value` that `fits`, if one of the two does; of both the nearer, and of two equally
near the greater. -/
def neighbour? (fits : Nat → Bool) (value step : Nat) : Option Nat :=
  let below := value / step * step
  let above := below + step
  match fits below, fits above with
  | true, true => some (if value - below < above - value then below else above)
  | true, false => some below
  | false, true => some above
  | false, false => none

/-- The first decimal that reads back, on ever finer scales. The finest one holds the value itself. -/
def shortestFrom (magnitude : Nat) : Nat → Nat
  | 0 => exactly magnitude
  | scale + 1 =>
    (neighbour? (readsAs · magnitude) (exactly magnitude) (Nat.pow 10 (scale + 1))).getD
      (shortestFrom magnitude scale)

/-- The decimal with the fewest digits that reads back. -/
def shortest (magnitude : Nat) : Nat :=
  shortestFrom magnitude (Nat.toDigits 10 (exactly magnitude)).length

/-! ## Writing -/

/-- The digits before the point. -/
def wholeDigits (decimal : Nat) : List Char := Nat.toDigits 10 (decimal / decimalOne)

/-- The digits after the point, up to the last one that is not `0`. -/
def fractionDigits (decimal : Nat) : List Char :=
  ((Nat.toDigits 10 (decimalOne + decimal % decimalOne)).drop 1).reverse.dropWhile (· == '0') |>.reverse

/-- A whole number has no point. -/
def decimalText (decimal : Nat) : String :=
  match fractionDigits decimal with
  | [] => String.ofList (wholeDigits decimal)
  | fraction => String.ofList (wholeDigits decimal ++ '.' :: fraction)

def signText (x : Double) : String := if x.isNegative then "-" else ""

/-- The text of infinities and of what is not a number. -/
def specialText (x : Double) : String := if x.magnitude = infinity then x.signText ++ "inf" else "NaN"

/-- The fewest digits, as in descriptions of tokens: `10`, `0.1`. -/
def shortText (x : Double) : String :=
  if x.isFinite then x.signText ++ decimalText (shortest x.magnitude) else x.specialText

/-- Whether there is nothing after the point. -/
def isWhole (x : Double) : Bool := units x.magnitude % one == 0

/-- The text of a value: a whole number keeps all of its digits and ends in `.0`. -/
def text (x : Double) : String :=
  if x.isFinite && x.isWhole then x.signText ++ decimalText (exactly x.magnitude) ++ ".0" else x.shortText

/-! ## Reading back -/

theorem decimalUnit_pos : 0 < decimalUnit := Nat.pow_pos (by decide)

theorem nearest_exactly {m : Nat} (hm : m < infinity) : nearest (exactly m) decimalUnit = m := by
  have h := nearest_mul_mul (units m) 1 (c := decimalUnit) decimalUnit_pos
  rw [Nat.one_mul, nearest_units hm] at h
  exact h

theorem readsAs_iff {decimal m : Nat} : readsAs decimal m = true ↔ nearest decimal decimalUnit = m := beq_iff_eq

theorem fits_of_neighbour? {fits : Nat → Bool} {value step decimal : Nat}
    (h : neighbour? fits value step = some decimal) : fits decimal = true := by
  unfold neighbour? at h
  dsimp only at h
  split at h
  next below above =>
    rw [Option.some.injEq] at h
    split at h
    · exact h ▸ below
    · exact h ▸ above
  next below _ => exact Option.some.inj h ▸ below
  next _ above => exact Option.some.inj h ▸ above
  next => cases h

theorem nearest_shortestFrom {m : Nat} (hm : m < infinity) (scale : Nat) :
    nearest (shortestFrom m scale) decimalUnit = m := by
  induction scale with
  | zero => exact nearest_exactly hm
  | succ scale ih =>
    rw [shortestFrom]
    cases h : neighbour? (readsAs · m) (exactly m) (Nat.pow 10 (scale + 1)) with
    | none => exact ih
    | some decimal => exact readsAs_iff.mp (@fits_of_neighbour? (readsAs · m) _ _ _ h)

theorem nearest_shortest {m : Nat} (hm : m < infinity) : nearest (shortest m) decimalUnit = m :=
  nearest_shortestFrom hm _

end Double

end MiniPascal
