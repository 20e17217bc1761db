/-!
# Doubles as whole numbers of the least unit

Up to its sign, every finite double is a whole number of units of `2 ^ -1074`. Counted in that unit a double is decoded
(`Double.units`) and a ratio is rounded (`Double.nearest`) with natural numbers alone.

* `Double.nearest_units`: a value that a double holds exactly is rounded to that double.
* `Double.nearest_mul_mul`: rounding sees the ratio, not its terms.
-/

namespace MiniPascal

/-- The reals of the language: IEEE numbers of 64 bits. -/
abbrev Double := Float

namespace Double

/-! ## Sign and magnitude -/

/-- The bit of the sign, above all others. -/
def signBit : Nat := 0x8000000000000000

/-- The least magnitude that is not finite: infinity. -/
def infinity : Nat := 0x7ff0000000000000

/-- The bits below the sign. -/
def magnitude (x : Double) : Nat := x.toBits.toNat % signBit

def isNegative (x : Double) : Bool := decide (signBit ≤ x.toBits.toNat)

def ofMagnitude (negative : Bool) (magnitude : Nat) : Double :=
  Float.ofBits (UInt64.ofNat (if negative then signBit + magnitude else magnitude))

def isFinite (x : Double) : Bool := decide (x.magnitude < infinity)

/-- Zero of either sign. -/
def isZero (x : Double) : Bool := x.magnitude == 0

/-! ## Units -/

/-- The unit is `2 ^ -places`. -/
@[irreducible] def places : Nat := 1074

/-- The number one, counted in units. -/
def one : Nat := 1 <<< places

/-- How many fractions there are: a magnitude below it is a count of units, and each further fraction doubles the
distance between neighbours. -/
def fractions : Nat := 0x10000000000000

/-- How many units a finite magnitude stands for. -/
def units (magnitude : Nat) : Nat :=
  if magnitude < fractions then magnitude
  else (fractions + magnitude % fractions) <<< (magnitude / fractions - 1)

/-- The whole number nearest to `n / d`; a half goes to the even neighbour. -/
def roundHalfEven (n d : Nat) : Nat :=
  if 2 * (n % d) < d ∨ (2 * (n % d) = d ∧ n / d % 2 = 0) then n / d else n / d + 1

/-- The magnitude nearest to `n / d` units, of two equally near the even one, and infinity beyond the finite range. -/
def nearest (n d : Nat) : Nat :=
  let power := (n / d).log2 - 52
  min infinity (power * fractions + roundHalfEven n (d <<< power))

/-- The double nearest to a whole number. -/
def ofInt (n : Int) : Double := ofMagnitude (decide (n < 0)) (nearest (n.natAbs * one) 1)

/-- The part before the point, with the sign of `x`; infinities and NaN stay as they are. -/
def truncate (x : Double) : Double :=
  if x.isFinite then ofMagnitude x.isNegative (nearest (units x.magnitude / one * one) 1) else x

/-! ## Rounding -/

theorem roundHalfEven_mul_left (n : Nat) {d : Nat} (hd : 0 < d) : roundHalfEven (n * d) d = n := by
  simp [roundHalfEven, Nat.mul_mod_left, Nat.mul_div_cancel _ hd, hd]

theorem roundHalfEven_mul_mul (n d : Nat) {c : Nat} (hc : 0 < c) :
    roundHalfEven (n * c) (d * c) = roundHalfEven n d := by
  have hlt : 2 * (n % d * c) < d * c ↔ 2 * (n % d) < d := by
    rw [← Nat.mul_assoc]; exact Nat.mul_lt_mul_right hc
  have heq : 2 * (n % d * c) = d * c ↔ 2 * (n % d) = d := by
    rw [← Nat.mul_assoc]; exact Nat.mul_left_inj (Nat.pos_iff_ne_zero.mp hc)
  simp [roundHalfEven, Nat.mul_mod_mul_right, Nat.mul_div_mul_right _ _ hc, hlt, heq]

theorem mul_shiftLeft (d c k : Nat) : (d * c) <<< k = d <<< k * c := by
  rw [Nat.shiftLeft_eq, Nat.shiftLeft_eq, Nat.mul_right_comm]

theorem nearest_mul_mul (n d : Nat) {c : Nat} (hc : 0 < c) : nearest (n * c) (d * c) = nearest n d := by
  simp only [nearest, Nat.mul_div_mul_right _ _ hc]
  rw [mul_shiftLeft, roundHalfEven_mul_mul _ _ hc]

theorem log2_shiftLeft {m : Nat} (hm : m ≠ 0) (k : Nat) : (m <<< k).log2 = m.log2 + k := by
  have hpos := Nat.two_pow_pos k
  rw [Nat.shiftLeft_eq, Nat.log2_eq_iff (Nat.mul_ne_zero hm (Nat.ne_of_gt hpos))]
  constructor
  · rw [Nat.pow_add]; exact Nat.mul_le_mul_right _ (Nat.log2_self_le hm)
  · rw [Nat.add_right_comm, Nat.pow_add]; exact Nat.mul_lt_mul_of_pos_right Nat.lt_log2_self hpos

theorem log2_lt_of_lt_fractions {m : Nat} (h : m < fractions) : m.log2 < 52 := by
  by_cases h0 : m = 0
  · simp [h0]
  · exact (Nat.log2_lt h0).mpr h

theorem log2_significand (m : Nat) : (fractions + m % fractions).log2 = 52 := by
  have := Nat.mod_lt m (show 0 < fractions by decide)
  rw [Nat.log2_eq_iff (by unfold fractions; omega)]
  unfold fractions at *
  omega

theorem nearest_units {m : Nat} (hm : m < infinity) : nearest (units m) 1 = m := by
  unfold units
  split
  next hlow =>
    have hlog : m.log2 - 52 = 0 := by have := log2_lt_of_lt_fractions hlow; omega
    have := roundHalfEven_mul_left m (d := 1) (by omega)
    rw [Nat.mul_one] at this
    simp only [nearest, Nat.div_one, hlog, Nat.shiftLeft_zero, this, Nat.zero_mul, Nat.zero_add]
    omega
  next hhigh =>
    have hne : fractions + m % fractions ≠ 0 := by unfold fractions; omega
    simp only [nearest, Nat.div_one, log2_shiftLeft hne, log2_significand, Nat.add_sub_cancel_left]
    rw [Nat.shiftLeft_eq, Nat.shiftLeft_eq, Nat.one_mul, roundHalfEven_mul_left _ (Nat.two_pow_pos _)]
    unfold fractions infinity at *
    omega

end Double

end MiniPascal
