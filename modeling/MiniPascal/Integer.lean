/-!
# Integers of 64 bits

Results are computed as unbounded whole numbers and then kept only if 64 bits hold them (`Integer.ofInt?`).

* `Integer.ofInt?_eq_some_iff`: what is kept is the number itself.
* `Integer.ofInt?_eq_none_iff`: what is refused lies outside the range.
-/

namespace MiniPascal

/-- The integers of the language: 64 bits, two's complement. -/
abbrev Integer := Int64

namespace Integer

/-- The least and the greatest integer enclose `n`. -/
def InRange (n : Int) : Prop := Int64.minValue.toInt ≤ n ∧ n ≤ Int64.maxValue.toInt

instance (n : Int) : Decidable (InRange n) := inferInstanceAs (Decidable (_ ∧ _))

/-- The integer with the value `n`, if 64 bits hold it. -/
def ofInt? (n : Int) : Option Integer := if InRange n then some (Int64.ofInt n) else none

def text (n : Integer) : String := toString n.toInt

theorem inRange_iff {n : Int} : InRange n ↔ -9223372036854775808 ≤ n ∧ n ≤ 9223372036854775807 := Iff.rfl

theorem inRange_toInt (i : Integer) : InRange i.toInt := by
  have := i.le_toInt; have := i.toInt_lt
  rw [inRange_iff]; omega

theorem toInt_ofInt {n : Int} (h : InRange n) : (Int64.ofInt n).toInt = n := by
  rw [inRange_iff] at h
  exact Int64.toInt_ofInt_of_le (by omega) (by omega)

theorem ofInt?_eq_some_iff {n : Int} {i : Integer} : ofInt? n = some i ↔ i.toInt = n := by
  unfold ofInt?
  constructor
  · intro h
    split at h
    next hn => cases h; exact toInt_ofInt hn
    next => cases h
  · rintro rfl
    rw [if_pos (inRange_toInt i), Int64.ofInt_toInt]

theorem ofInt?_eq_none_iff {n : Int} : ofInt? n = none ↔ ¬ InRange n := by
  unfold ofInt?; split <;> simp_all

end Integer

end MiniPascal
