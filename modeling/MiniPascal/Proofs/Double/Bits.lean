import MiniPascal.Double.Basic

/-!
# Doubles and their bits

A word that is not NaN is its sign, exponent and fraction put together again, so a double made from bits has these bits,
and a double is made from its own bits, as there is only one NaN.

* `Double.ofMagnitude_magnitude`: sign and magnitude determine a double.
* `Double.magnitude_ofMagnitude`: the magnitude is read back from it.
* `Double.neg_ofMagnitude`: the opposite has the other sign.
* `Double.isZero_ofInt`: no integer but zero becomes a zero.
-/

namespace MiniPascal

namespace Double

open Float.Model (Format UnpackedFloat)
open Float.Model.UnpackedFloat (Sign packComponents unpackSign unpackExponent unpackMantissa)

/-! ## The parts of a word -/

theorem toNat_packComponents (s : Sign) (e : BitVec 11) (m : BitVec 52) :
    (packComponents Format.binary64 s e m).toNat = s.toBitVec.toNat * signBit + e.toNat * fractions + m.toNat := by
  have hm := m.isLt
  have he := e.isLt
  unfold packComponents
  rw [BitVec.toNat_append, BitVec.toNat_append, ← Nat.shiftLeft_add_eq_or_of_lt hm,
    ← Nat.shiftLeft_add_eq_or_of_lt he]
  simp only [Nat.shiftLeft_eq, signBit, fractions]
  omega

theorem toBitVec_ofBitVec (v : BitVec 1) : (Sign.ofBitVec v).toBitVec = v := by
  revert v; decide

theorem toNat_unpackMantissa (b : BitVec 64) : (@unpackMantissa Format.binary64 b).toNat = b.toNat % fractions := by
  simp [unpackMantissa, fractions]

theorem toNat_unpackExponent (b : BitVec 64) :
    (@unpackExponent Format.binary64 b).toNat = b.toNat / fractions % 2048 := by
  simp [unpackExponent, Nat.shiftRight_eq_div_pow, fractions]

theorem toNat_unpackSign (b : BitVec 64) : (@unpackSign Format.binary64 b).toNat = b.toNat / signBit % 2 := by
  show (b.extractLsb 63 63).toNat = _
  simp [Nat.shiftRight_eq_div_pow, signBit]

/-- The parts of a word, whatever they are called, make up the word. -/
theorem packComponents_eq {b : BitVec 64} {e : BitVec 11} {m : BitVec 52}
    (he : @unpackExponent Format.binary64 b = e) (hm : @unpackMantissa Format.binary64 b = m) :
    packComponents Format.binary64 (Sign.ofBitVec (@unpackSign Format.binary64 b)) e m = b := by
  subst he hm
  apply BitVec.eq_of_toNat_eq
  have := b.isLt
  rw [toNat_packComponents, toBitVec_ofBitVec, toNat_unpackSign, toNat_unpackExponent, toNat_unpackMantissa]
  unfold signBit fractions
  omega

/-! ## Words and doubles -/

/-- A word that is not NaN is the word of a double. -/
theorem valid_of_le_infinity {b : BitVec 64} (h : b.toNat % signBit ≤ infinity) : Format.binary64.Valid b := by
  refine ⟨fun he hm => absurd (BitVec.eq_of_toNat_eq ?_) hm⟩
  have hexponent : (@unpackExponent Format.binary64 b).toNat = 2047 := congrArg BitVec.toNat he
  have hfraction := (@unpackMantissa Format.binary64 b).isLt
  rw [toNat_unpackExponent] at hexponent
  rw [toNat_unpackMantissa] at hfraction ⊢
  show b.toNat % fractions = 0
  unfold signBit infinity fractions at *
  omega

theorem valid_toBits (x : Double) : Format.binary64.Valid x.toBits.toBitVec := x.toModel.valid

/-- A finite number is packed with its leading bit dropped, or as it is if its exponent is the least one. -/
theorem pack_finite (s : Sign) (m : Nat) (e : Int) (h : 0 < m) :
    UnpackedFloat.pack Format.binary64 (.finite s m e h) =
      if 2048 ≤ (e + 1023 + 52).toNat + 1 then UnpackedFloat.packedInfinity Format.binary64 s
      else if m.log2 + 1 = 53 then packComponents Format.binary64 s (.ofNat 11 (e + 1023 + 52).toNat) (.ofNat 52 m)
      else packComponents Format.binary64 s 0 (.ofNat 52 m) := rfl

/-- The leading bit put back before a fraction. -/
theorem toNat_one_append (m : BitVec 52) : (1#1 ++ m).toNat = fractions + m.toNat := by
  rw [BitVec.toNat_append, ← Nat.shiftLeft_add_eq_or_of_lt m.isLt]
  rfl

theorem log2_one_append (m : BitVec 52) : (1#1 ++ m).toNat.log2 = 52 := by
  have hlt : m.toNat < 4503599627370496 := m.isLt
  rw [toNat_one_append]
  unfold fractions
  rw [Nat.log2_eq_iff (by omega)]
  omega

theorem pack_unpack {b : BitVec 64} (h : Format.binary64.Valid b) :
    UnpackedFloat.pack Format.binary64 (UnpackedFloat.unpack Format.binary64 b) = b := by
  have hbias : (Format.binary64.exponentBias : Int) = 1023 := rfl
  have hwidth : (Format.binary64.mantissaBitsWithoutImplicit : Int) = 52 := rfl
  have hlt : (@unpackMantissa Format.binary64 b).toNat < 4503599627370496 := (@unpackMantissa Format.binary64 b).isLt
  have hexponent : (@unpackExponent Format.binary64 b).toNat < 2048 := (@unpackExponent Format.binary64 b).isLt
  unfold UnpackedFloat.unpack
  dsimp only
  by_cases hall : @unpackExponent Format.binary64 b = -1#11
  · -- infinity and NaN
    rw [if_pos hall]
    by_cases hzero : @unpackMantissa Format.binary64 b = 0#52
    · rw [if_pos hzero]
      exact packComponents_eq hall hzero
    · rw [if_neg hzero]
      exact (h.eq_packedNaN hall hzero).symm
  have hne : (@unpackExponent Format.binary64 b).toNat ≠ 2047 := fun heq => hall (BitVec.eq_of_toNat_eq heq)
  rw [if_neg hall]
  by_cases hlow : @unpackExponent Format.binary64 b = 0#11
  · -- zero and the numbers of the least exponent
    have he0 : (@unpackExponent Format.binary64 b).toNat = 0 := congrArg BitVec.toNat hlow
    rw [if_pos hlow]
    by_cases hzero : @unpackMantissa Format.binary64 b = 0#52
    · rw [dif_pos hzero]
      exact packComponents_eq hlow hzero
    · have hpos : (@unpackMantissa Format.binary64 b).toNat ≠ 0 := fun h0 => hzero (BitVec.eq_of_toNat_eq h0)
      have hlog : (@unpackMantissa Format.binary64 b).toNat.log2 < 52 := (Nat.log2_lt hpos).mpr hlt
      rw [dif_neg hzero, pack_finite, if_neg (by omega), if_neg (by omega), BitVec.ofNat_toNat, BitVec.setWidth_eq]
      exact packComponents_eq hlow rfl
  · have hexp : (((@unpackExponent Format.binary64 b).toNat : Int)
        - ((Format.binary64.exponentBias : Int) + (Format.binary64.mantissaBitsWithoutImplicit : Int))
        + 1023 + 52).toNat = (@unpackExponent Format.binary64 b).toNat := by omega
    rw [if_neg hlow, pack_finite, hexp, if_neg (by omega), if_pos (by rw [log2_one_append])]
    refine packComponents_eq (by rw [BitVec.ofNat_toNat, BitVec.setWidth_eq]) ?_
    apply BitVec.eq_of_toNat_eq
    rw [toNat_one_append, BitVec.toNat_ofNat]
    show _ = (4503599627370496 + _) % 4503599627370496
    omega

theorem toBits_ofBits {b : UInt64} (h : b.toNat % signBit ≤ infinity) : (Float.ofBits b).toBits = b := by
  show UInt64.ofBitVec (UnpackedFloat.pack Format.binary64 (UnpackedFloat.unpack Format.binary64 b.toBitVec)) = b
  rw [pack_unpack (valid_of_le_infinity h)]

/-- A double is known by its bits. -/
theorem eq_of_toBits {x y : Double} (h : x.toBits = y.toBits) : x = y := by
  obtain ⟨⟨bits, _⟩⟩ := x
  obtain ⟨⟨bits', _⟩⟩ := y
  cases h
  rfl

theorem ofBits_toBits (x : Double) : Float.ofBits x.toBits = x := by
  apply eq_of_toBits
  show UInt64.ofBitVec (UnpackedFloat.pack Format.binary64 (UnpackedFloat.unpack Format.binary64 x.toBits.toBitVec)) = _
  rw [pack_unpack x.valid_toBits]

/-! ## Sign and magnitude -/

theorem toNat_toBits_ofMagnitude (negative : Bool) {m : Nat} (h : m ≤ infinity) :
    (ofMagnitude negative m).toBits.toNat = if negative then signBit + m else m := by
  unfold ofMagnitude
  have hlt : (if negative then signBit + m else m) < 18446744073709551616 := by
    unfold signBit infinity at *; split <;> omega
  have hword : (UInt64.ofNat (if negative then signBit + m else m)).toNat = if negative then signBit + m else m :=
    UInt64.toNat_ofNat_of_lt' hlt
  rw [toBits_ofBits, hword]
  rw [hword]
  unfold signBit infinity at *
  split <;> omega

theorem magnitude_ofMagnitude (negative : Bool) {m : Nat} (h : m ≤ infinity) :
    (ofMagnitude negative m).magnitude = m := by
  unfold magnitude
  rw [toNat_toBits_ofMagnitude negative h]
  unfold signBit infinity at *
  split <;> omega

/-- Sign and magnitude make up a double. -/
theorem ofMagnitude_magnitude (x : Double) : ofMagnitude x.isNegative x.magnitude = x := by
  have hbits : (if x.isNegative then signBit + x.magnitude else x.magnitude) = x.toBits.toNat := by
    have := x.toBits.toNat_lt
    unfold isNegative magnitude signBit
    simp only [decide_eq_true_eq]
    split <;> omega
  rw [ofMagnitude, hbits, UInt64.ofNat_toNat, ofBits_toBits]

/-! ## Opposites -/

/-- Words that differ in their sign only are opposites. -/
theorem neg_unpack {b b' : BitVec 64} (hsign : @unpackSign Format.binary64 b = 0#1)
    (hsign' : @unpackSign Format.binary64 b' = 1#1)
    (he : @unpackExponent Format.binary64 b = @unpackExponent Format.binary64 b')
    (hm : @unpackMantissa Format.binary64 b = @unpackMantissa Format.binary64 b') :
    (UnpackedFloat.unpack Format.binary64 b).neg = UnpackedFloat.unpack Format.binary64 b' := by
  have hfinite : ∀ {n n' : Nat} {e : Int} (h : 0 < n) (h' : 0 < n'), n = n' →
      (UnpackedFloat.finite (.ofBitVec 0#1) n e h).neg = .finite (.ofBitVec 1#1) n' e h' := by
    rintro n _ e h h' rfl
    rfl
  unfold UnpackedFloat.unpack
  dsimp only
  rw [hsign, hsign', he]
  by_cases hall : @unpackExponent Format.binary64 b' = -1#11
  · rw [if_pos hall, if_pos hall, hm]
    split <;> rfl
  rw [if_neg hall, if_neg hall]
  by_cases hlow : @unpackExponent Format.binary64 b' = 0#11
  · rw [if_pos hlow, if_pos hlow]
    by_cases hzero : @unpackMantissa Format.binary64 b' = 0#52
    · rw [dif_pos (hm.trans hzero), dif_pos hzero]
      rfl
    · rw [dif_neg (hm ▸ hzero), dif_neg hzero]
      exact hfinite _ _ (by rw [hm])
  · rw [if_neg hlow, if_neg hlow]
    exact hfinite _ _ (by rw [hm])

theorem neg_ofMagnitude {m : Nat} (h : m ≤ infinity) : -ofMagnitude false m = ofMagnitude true m := by
  have hb : (ofMagnitude false m).toBits.toBitVec.toNat = m := toNat_toBits_ofMagnitude false h
  have hb' : (ofMagnitude true m).toBits.toBitVec.toNat = signBit + m := toNat_toBits_ofMagnitude true h
  have hneg : (UnpackedFloat.unpack Format.binary64 (ofMagnitude false m).toBits.toBitVec).neg =
      UnpackedFloat.unpack Format.binary64 (ofMagnitude true m).toBits.toBitVec := by
    unfold infinity signBit at *
    apply neg_unpack <;> apply BitVec.eq_of_toNat_eq
    · rw [toNat_unpackSign, hb]
      show m / signBit % 2 = 0
      unfold signBit
      omega
    · rw [toNat_unpackSign, hb']
      show _ = 1
      unfold signBit
      omega
    · rw [toNat_unpackExponent, toNat_unpackExponent, hb, hb']
      unfold fractions
      omega
    · rw [toNat_unpackMantissa, toNat_unpackMantissa, hb, hb']
      unfold fractions
      omega
  apply eq_of_toBits
  show UInt64.ofBitVec (UnpackedFloat.pack Format.binary64
    (UnpackedFloat.unpack Format.binary64 (ofMagnitude false m).toBits.toBitVec).neg) = _
  rw [hneg, pack_unpack (ofMagnitude true m).valid_toBits]

/-! ## Zeros -/

theorem isZero_iff {x : Double} : x.isZero = true ↔ x.toBits = 0 ∨ x.toBits = 0x8000000000000000 := by
  have hlt := x.toBits.toNat_lt
  rw [isZero, beq_iff_eq, magnitude, ← UInt64.toNat_inj, ← UInt64.toNat_inj]
  simp only [UInt64.toNat_ofNat, Nat.reducePow, Nat.reduceMod, signBit]
  omega

theorem nearest_eq_zero {n : Nat} : nearest n 1 = 0 ↔ n = 0 := by
  constructor
  · intro h
    simp only [nearest, Nat.div_one] at h
    by_cases hpower : n.log2 - 52 = 0
    · have hround := roundHalfEven_mul_left n (d := 1) Nat.one_pos
      rw [Nat.mul_one] at hround
      simp only [hpower, Nat.shiftLeft_zero, hround, Nat.zero_mul, Nat.zero_add] at h
      unfold infinity at h
      omega
    · unfold infinity fractions at h
      omega
  · rintro rfl
    rfl

theorem nearest_le_infinity (n d : Nat) : nearest n d ≤ infinity := Nat.min_le_left _ _

theorem one_pos : 0 < one := by
  unfold one
  rw [Nat.one_shiftLeft]
  exact Nat.two_pow_pos _

/-- Only zero becomes a zero. -/
theorem isZero_ofInt {n : Int} : (ofInt n).isZero = true ↔ n = 0 := by
  rw [isZero, beq_iff_eq, ofInt, magnitude_ofMagnitude _ (nearest_le_infinity _ _), nearest_eq_zero, Nat.mul_eq_zero,
    Int.natAbs_eq_zero]
  exact or_iff_left (Nat.ne_of_gt one_pos)

end Double

end MiniPascal
