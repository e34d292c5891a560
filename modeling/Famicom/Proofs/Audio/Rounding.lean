import Famicom.Proofs.Audio.Resampling

/-!
# How singles are rounded

A single that is finite and not below zero has a value, a whole number of units in the last
place. The value of a sum, a difference or a quotient is rounded, and all that is needed
about that is what any rounding does: it keeps the order of the exact value among all the
values that a single can have (`Single.Rounds`).

* **values** — the value of a single decides its comparisons and its conversions
  (`Single.Holds.lt_iff`, `Single.Holds.toNat_toUInt32`);
* **mantissas** — bits that are shifted out leave a trace, so that the mantissa that remains
  is either exact or the lower neighbour of the value (`Single.Approximates`);
* **operations** — so sums, differences and quotients are rounded
  (`Single.Holds.add`, `Single.Holds.sub`, `Single.Holds.div`).
-/

namespace Famicom.Audio.Single

open Float.Model (Format UnpackedFloat totalExponent)
open Float.Model.UnpackedFloat (Sign Accuracy ExtendedMantissa)

/-! ## Values -/

/-- The value of a mantissa with an exponent. -/
def value (mantissa : ℕ) (exponent : ℤ) : ℚ := mantissa * 2 ^ exponent

section Values

variable {m n : ℕ} {e e' : ℤ}

theorem two_zpow_pos (e : ℤ) : (0 : ℚ) < 2 ^ e := zpow_pos two_pos e

theorem value_nonneg (m : ℕ) (e : ℤ) : 0 ≤ value m e :=
  mul_nonneg (Nat.cast_nonneg m) (two_zpow_pos e).le

theorem value_zero (e : ℤ) : value 0 e = 0 := by
  rw [value, Nat.cast_zero, zero_mul]

theorem value_pos (h : 0 < m) (e : ℤ) : 0 < value m e :=
  mul_pos (Nat.cast_pos.2 h) (two_zpow_pos e)

theorem value_le_value : value m e ≤ value n e ↔ m ≤ n := by
  rw [value, value, mul_le_mul_iff_left₀ (two_zpow_pos e), Nat.cast_le]

theorem value_lt_value : value m e < value n e ↔ m < n := by
  rw [value, value, mul_lt_mul_iff_left₀ (two_zpow_pos e), Nat.cast_lt]

/-- Bits move from the exponent into the mantissa. -/
theorem value_shift (m k : ℕ) (e : ℤ) : value (m * 2 ^ k) e = value m (e + k) := by
  rw [value, value, Nat.cast_mul, Nat.cast_pow, Nat.cast_two, zpow_add₀ two_ne_zero,
    zpow_natCast]
  ring

/-- The same value with a smaller exponent. -/
theorem value_lower (h : e ≤ e') (m : ℕ) : value m e' = value (m * 2 ^ (e' - e).toNat) e := by
  rw [value_shift, Int.toNat_of_nonneg (by omega), add_sub_cancel]

theorem value_natCast (n : ℕ) : value n 0 = n := by
  rw [value, zpow_zero, mul_one]

end Values

/-- The mantissa has 24 bits, unless the exponent is the least one. -/
structure Canonical (mantissa : ℕ) (exponent : ℤ) : Prop where
  bits : mantissa < 2 ^ 24
  least : -149 ≤ exponent
  full : 2 ^ 23 ≤ mantissa ∨ exponent = -149

/-- A value that a single has, if it is not too large. -/
def Representable (v : ℚ) : Prop := ∃ m e, m < 2 ^ 24 ∧ -149 ≤ e ∧ v = value m e

/-- The finite float has this value, which is not below zero. -/
def Means : UnpackedFloat → ℚ → Prop
  | .zero .positive, v => v = 0
  | .finite .positive m e _, v => Canonical m e ∧ v = value m e
  | _, _ => False

/-- The single has this value. -/
def Holds (x : Float32) (v : ℚ) : Prop := Means x.toModel.unpack v

theorem Means.cases {f : UnpackedFloat} {v : ℚ} (h : Means f v) :
    (f = .zero .positive ∧ v = 0) ∨
      ∃ m e hpos, f = .finite .positive m e hpos ∧ Canonical m e ∧ v = value m e := by
  cases f with
  | notANumber => exact absurd h id
  | infinity sign => cases sign <;> exact absurd h id
  | zero sign =>
      cases sign with
      | negative => exact absurd h id
      | positive => exact .inl ⟨rfl, h⟩
  | finite sign m e hpos =>
      cases sign with
      | negative => exact absurd h id
      | positive => exact .inr ⟨m, e, hpos, rfl, h⟩

/-- One value is the other one rounded, in whatever direction. -/
structure Rounds (exact rounded : ℚ) : Prop where
  below : ∀ r, Representable r → r ≤ exact → r ≤ rounded
  above : ∀ r, Representable r → exact ≤ r → rounded ≤ r

section Rounding

variable {v w r : ℚ}

theorem Canonical.representable {m : ℕ} {e : ℤ} (h : Canonical m e) : Representable (value m e) :=
  ⟨m, e, h.bits, h.least, rfl⟩

theorem representable_natCast {n : ℕ} (h : n < 2 ^ 24) : Representable n :=
  ⟨n, 0, h, by decide, (value_natCast n).symm⟩

theorem representable_one : Representable 1 := by
  have hone := representable_natCast (n := 1) (by decide)
  rwa [Nat.cast_one] at hone

theorem Representable.double (h : Representable v) : Representable (2 * v) := by
  obtain ⟨m, e, hm, he, rfl⟩ := h
  refine ⟨m, e + 1, hm, by omega, ?_⟩
  rw [value, value, zpow_add_one₀ two_ne_zero]
  ring

/-- Below this bound there is something to round to in every unit. -/
theorem exists_floor {e : ℤ} (he : -149 ≤ e) (hv : 0 ≤ v) (hbound : v < value (2 ^ 24) e) :
    ∃ r, Representable r ∧ r ≤ v ∧ v < r + 2 ^ e := by
  have hunit := two_zpow_pos e
  have hquotient : 0 ≤ v / 2 ^ e := div_nonneg hv hunit.le
  have hlow := (le_div_iff₀ hunit).1 (Nat.floor_le hquotient)
  have hhigh := (div_lt_iff₀ hunit).1 (Nat.lt_floor_add_one (v / 2 ^ e))
  rw [add_mul, one_mul] at hhigh
  refine ⟨value ⌊v / 2 ^ e⌋₊ e, ⟨_, e, ?_, he, rfl⟩, hlow, hhigh⟩
  exact value_lt_value.1 (hlow.trans_lt hbound)

/-- A value that can be represented is not rounded. -/
theorem Rounds.eq (h : Rounds v w) (hv : Representable v) : w = v :=
  le_antisymm (h.above v hv le_rfl) (h.below v hv le_rfl)

/-- Rounding loses less than a unit. -/
theorem Rounds.lt_add (h : Rounds v w) {e : ℤ} (he : -149 ≤ e) (hv : 0 ≤ v)
    (hbound : v < value (2 ^ 24) e) : v < w + 2 ^ e := by
  obtain ⟨r, hr, hlow, hhigh⟩ := exists_floor he hv hbound
  exact hhigh.trans_le (add_le_add_left (h.below r hr hlow) _)

theorem representable_value {n : ℕ} {e : ℤ} (hn : n ≤ 2 ^ 24) (he : -149 ≤ e) :
    Representable (value n e) := by
  rcases hn.lt_or_eq with hlt | rfl
  · exact ⟨n, e, hlt, he, rfl⟩
  · -- one bit more than there is room for, but the lowest bits are empty
    exact ⟨2 ^ 23, e + 1, by decide, by omega, value_shift (2 ^ 23) 1 e⟩

/-- Below the same bound there is something to round up to. -/
theorem exists_ceil {e : ℤ} (he : -149 ≤ e) (hv : 0 ≤ v) (hbound : v < value (2 ^ 24) e) :
    ∃ r, Representable r ∧ v ≤ r ∧ r ≤ v + 2 ^ e := by
  have hunit := two_zpow_pos e
  have hlow := (div_le_iff₀ hunit).1 (Nat.le_ceil (v / 2 ^ e))
  have hhigh := (Nat.ceil_lt_add_one (div_nonneg hv hunit.le)).le
  have hsize : ⌈v / 2 ^ e⌉₊ ≤ 2 ^ 24 := Nat.ceil_le.2 ((div_le_iff₀ hunit).2 hbound.le)
  refine ⟨value ⌈v / 2 ^ e⌉₊ e, representable_value hsize he, hlow, ?_⟩
  have hscaled := mul_le_mul_of_nonneg_right hhigh hunit.le
  rwa [add_mul, one_mul, div_mul_cancel₀ v hunit.ne'] at hscaled

/-- Rounding moves a value by a unit at most. -/
theorem Rounds.abs_sub_le (h : Rounds v w) {e : ℤ} (he : -149 ≤ e) (hv : 0 ≤ v)
    (hbound : v < value (2 ^ 24) e) : |w - v| ≤ 2 ^ e := by
  obtain ⟨r, hr, hlow, hhigh⟩ := exists_ceil he hv hbound
  have hdown := h.lt_add he hv hbound
  have hup := h.above r hr hlow
  rw [abs_le]
  constructor
  · linarith
  · linarith

theorem Rounds.nonneg (h : Rounds v w) (hv : 0 ≤ v) : 0 ≤ w := by
  have hzero := representable_natCast (n := 0) (by decide)
  rw [Nat.cast_zero] at hzero
  exact h.below 0 hzero hv

theorem rounds_self (v : ℚ) : Rounds v v := ⟨fun _ _ h => h, fun _ _ h => h⟩

end Rounding

/-! ## Mantissas -/

/-- The mantissa is that of the greatest value below, or of the value itself if no bits
have been shifted out. -/
structure Approximates (em : ExtendedMantissa) (e : ℤ) (v : ℚ) : Prop where
  low : value em.mantissa e ≤ v
  high : v < value (em.mantissa + 1) e
  exact : em.roundBit = false → em.stickyBit = false → v = value em.mantissa e
  inexact : em.roundBit = true ∨ em.stickyBit = true → value em.mantissa e < v

namespace Approximates

variable {em : ExtendedMantissa} {e : ℤ} {v : ℚ}

theorem shiftRightOne (h : Approximates em e v) : Approximates em.shiftRightOne (e + 1) v := by
  have hdouble (m : ℕ) : value m (e + 1) = value (2 * m) e := by
    have hshift := value_shift m 1 e
    rw [pow_one, Nat.cast_one, mul_comm] at hshift
    exact hshift.symm
  have hlow := h.low
  have hhigh := h.high
  refine ⟨?_, ?_, fun hround hsticky => ?_, fun hlost => ?_⟩
  · show value (em.mantissa / 2) (e + 1) ≤ v
    rw [hdouble]
    exact (value_le_value.2 (Nat.mul_div_le _ _)).trans hlow
  · show v < value (em.mantissa / 2 + 1) (e + 1)
    rw [hdouble]
    exact hhigh.trans_le (value_le_value.2 (by omega))
  · have heven : em.mantissa % 2 = 0 := by simpa [ExtendedMantissa.shiftRightOne] using hround
    have hbits : em.roundBit = false ∧ em.stickyBit = false := by
      simpa [ExtendedMantissa.shiftRightOne] using hsticky
    show v = value (em.mantissa / 2) (e + 1)
    rw [hdouble, h.exact hbits.1 hbits.2, Nat.mul_div_cancel' (Nat.dvd_of_mod_eq_zero heven)]
  · show value (em.mantissa / 2) (e + 1) < v
    rw [hdouble]
    by_cases heven : em.mantissa % 2 = 0
    · have hbits : em.roundBit = true ∨ em.stickyBit = true := by
        simpa [ExtendedMantissa.shiftRightOne, heven] using hlost
      rw [Nat.mul_div_cancel' (Nat.dvd_of_mod_eq_zero heven)]
      exact h.inexact hbits
    · exact (value_lt_value.2 (by omega)).trans_le hlow

theorem shiftRight (h : Approximates em e v) (k : ℕ) : Approximates (em >>> k) (e + k) v := by
  induction k with
  | zero =>
      rw [Nat.cast_zero, add_zero]
      exact h
  | succ k ih =>
      rw [Nat.cast_succ, ← add_assoc]
      exact ih.shiftRightOne

theorem mantissa_shiftRight (em : ExtendedMantissa) (k : ℕ) :
    (em >>> k).mantissa = em.mantissa / 2 ^ k := by
  induction k with
  | zero => exact (Nat.div_one _).symm
  | succ k ih =>
      show (em >>> k).mantissa / 2 = _
      rw [ih, Nat.div_div_eq_div_mul, pow_succ]

/-- Rounding goes to one of the two neighbours. -/
theorem roundedMantissa_cases (em : ExtendedMantissa) :
    em.roundedMantissa = em.mantissa ∨
      (em.roundedMantissa = em.mantissa + 1 ∧ (em.roundBit = true ∨ em.stickyBit = true)) := by
  rcases em with ⟨m, round, sticky⟩
  cases round with
  | false =>
      cases sticky with
      | false => exact .inl rfl
      | true => exact .inl rfl
  | true =>
      cases sticky with
      | false =>
          show m + m % 2 = m ∨ m + m % 2 = m + 1 ∧ _
          rcases Nat.mod_two_eq_zero_or_one m with hmod | hmod
          · exact .inl (by rw [hmod]; rfl)
          · exact .inr ⟨by rw [hmod], .inl rfl⟩
      | true => exact .inr ⟨rfl, .inl rfl⟩

/-- Between two neighbours nothing can be represented, if the lower one has all its bits. -/
theorem rounds (h : Approximates em e v)
    (hfull : 2 ^ 23 ≤ em.mantissa ∨ e = -149) : Rounds v (value em.roundedMantissa e) := by
  -- a value with a smaller exponent lies below, one with another exponent has no more bits
  have hcases (r : ℚ) (hr : Representable r) :
      r ≤ value em.mantissa e ∨ ∃ n, r = value n e := by
    obtain ⟨m', e', hm', he', rfl⟩ := hr
    by_cases hle : e ≤ e'
    · exact .inr ⟨_, value_lower hle m'⟩
    · left
      have hfull : 2 ^ 23 ≤ em.mantissa := hfull.resolve_right (by omega)
      rw [value_lower (by omega : e' ≤ e) em.mantissa, value_le_value]
      obtain ⟨k, hk⟩ : ∃ k, (e - e').toNat = k + 1 := ⟨(e - e').toNat - 1, by omega⟩
      have hone : 1 ≤ 2 ^ k := Nat.one_le_two_pow
      rw [hk, pow_succ]
      nlinarith
  rcases roundedMantissa_cases em with hrounded | ⟨hrounded, hlost⟩
  · rw [hrounded]
    refine ⟨fun r hr hle => ?_, fun r _ hle => h.low.trans hle⟩
    rcases hcases r hr with hlow | ⟨n, rfl⟩
    · exact hlow
    · have hlt := value_lt_value.1 (hle.trans_lt h.high)
      exact value_le_value.2 (by omega)
  · rw [hrounded]
    refine ⟨fun r _ hle => (hle.trans_lt h.high).le, fun r hr hle => ?_⟩
    rcases hcases r hr with hlow | ⟨n, rfl⟩
    · exact absurd (hle.trans hlow) (h.inexact hlost).not_ge
    · have hlt := value_lt_value.1 ((h.inexact hlost).trans_le hle)
      exact value_le_value.2 (by omega)

end Approximates

/-! ## Rounding -/

section Rounding

variable {m : ℕ} {e : ℤ} {v : ℚ}

theorem targetExponent_eq (m : ℕ) (e : ℤ) :
    Format.binary32.targetExponent (totalExponent m e) = max (m.log2 + 1 + e - 24) (-149) := rfl

/-- A mantissa with few enough bits is not shifted, -/
theorem shiftToTargetExponent_small (hm : m < 2 ^ 24) (he : -149 ≤ e) :
    UnpackedFloat.shiftToTargetExponent Format.binary32 m e .exact = (⟨m, false, false⟩, e) := by
  have hlog : m.log2 ≤ 23 := by
    by_cases hzero : m = 0
    · rw [hzero]
      decide
    · exact Nat.le_of_lt_succ ((Nat.log2_lt hzero).2 hm)
  have hstay : (Format.binary32.targetExponent (totalExponent m e) - e).toNat = 0 := by
    rw [targetExponent_eq]
    omega
  simp only [UnpackedFloat.shiftToTargetExponent, UnpackedFloat.shiftToExponent, hstay]
  rw [Nat.cast_zero, add_zero]
  rfl

/-- and one that was rounded up to one bit more is shifted by that. -/
theorem shiftToTargetExponent_carry (he : -149 ≤ e) :
    UnpackedFloat.shiftToTargetExponent Format.binary32 (2 ^ 24) e .exact =
      (⟨2 ^ 23, false, false⟩, e + 1) := by
  have hone : (Format.binary32.targetExponent (totalExponent (2 ^ 24) e) - e).toNat = 1 := by
    rw [targetExponent_eq, Nat.log2_two_pow]
    omega
  simp only [UnpackedFloat.shiftToTargetExponent, UnpackedFloat.shiftToExponent, hone]
  rfl

/-- A mantissa with enough bits is shifted until it has 24 of them, or the exponent is the
least one. -/
theorem shiftToTargetExponent_bits (m : ℕ) (he : e ≤ Format.binary32.targetExponent (totalExponent m e))
    (accuracy : Accuracy) :
    let first := UnpackedFloat.shiftToTargetExponent Format.binary32 m e accuracy
    first.1.mantissa < 2 ^ 24 ∧ -149 ≤ first.2 ∧ (2 ^ 23 ≤ first.1.mantissa ∨ first.2 = -149) := by
  intro first
  have hmantissa : (ExtendedMantissa.ofMantissaAndAccuracy m accuracy).mantissa = m := by
    cases accuracy with
    | exact => rfl
    | inexact position => cases position <;> rfl
  rw [targetExponent_eq] at he
  obtain ⟨k, hk⟩ : ∃ k : ℕ, max ((m.log2 : ℤ) + 1 + e - 24) (-149) = e + k :=
    ⟨(max ((m.log2 : ℤ) + 1 + e - 24) (-149) - e).toNat, by omega⟩
  have hfirst : first = (ExtendedMantissa.ofMantissaAndAccuracy m accuracy >>> k, e + k) := by
    have hshift : (Format.binary32.targetExponent (totalExponent m e) - e).toNat = k := by
      rw [targetExponent_eq, hk]
      omega
    show UnpackedFloat.shiftToExponent m e accuracy _ = _
    simp only [UnpackedFloat.shiftToExponent, hshift]
  rw [hfirst]
  simp only [Approximates.mantissa_shiftRight, hmantissa]
  refine ⟨?_, by omega, ?_⟩
  · rw [Nat.div_lt_iff_lt_mul (Nat.two_pow_pos k), ← pow_add]
    exact Nat.lt_log2_self.trans_le (Nat.pow_le_pow_right two_pos (by omega))
  · by_cases hleast : e + k = -149
    · exact .inr hleast
    · left
      have hzero : m ≠ 0 := by
        rintro rfl
        rw [Nat.log2_zero] at hk
        omega
      rw [Nat.le_div_iff_mul_le (Nat.two_pow_pos k), ← pow_add]
      have hlog : m.log2 = 23 + k := by omega
      rw [← hlog]
      exact Nat.log2_self_le hzero

/-- **Rounding.** The result has a value, which is the exact one rounded. -/
theorem exists_round {accuracy : Accuracy}
    (h : Approximates (.ofMantissaAndAccuracy m accuracy) e v)
    (he : e ≤ Format.binary32.targetExponent (totalExponent m e)) :
    ∃ w, Means (UnpackedFloat.roundWithAccuracy Format.binary32 .positive m e accuracy) w ∧
      Rounds v w := by
  obtain ⟨hbits, hleast, hfull⟩ := shiftToTargetExponent_bits m he accuracy
  have happroximates : Approximates
      (UnpackedFloat.shiftToTargetExponent Format.binary32 m e accuracy).1
      (UnpackedFloat.shiftToTargetExponent Format.binary32 m e accuracy).2 v := h.shiftRight _
  unfold UnpackedFloat.roundWithAccuracy
  generalize UnpackedFloat.shiftToTargetExponent Format.binary32 m e accuracy = first at *
  obtain ⟨em, e'⟩ := first
  have hcases := Approximates.roundedMantissa_cases em
  simp only at hbits hleast hfull happroximates ⊢
  refine ⟨value em.roundedMantissa e', ?_, happroximates.rounds hfull⟩
  by_cases hcarry : em.roundedMantissa = 2 ^ 24
  · rw [hcarry, shiftToTargetExponent_carry hleast]
    refine ⟨⟨Nat.pow_lt_pow_right (by decide) (by decide), by omega, .inl le_rfl⟩, ?_⟩
    exact value_shift (2 ^ 23) 1 e'
  · have hsmall : em.roundedMantissa < 2 ^ 24 := by omega
    rw [shiftToTargetExponent_small hsmall hleast]
    by_cases hzero : em.roundedMantissa = 0
    · simp only [hzero, dif_pos]
      exact value_zero e'
    · simp only [hzero, dite_false]
      refine ⟨⟨hsmall, hleast, hfull.imp_left fun hfull => ?_⟩, rfl⟩
      omega

theorem log2_mul_two_pow (h : m ≠ 0) (k : ℕ) : (m * 2 ^ k).log2 = m.log2 + k := by
  have hpow : (2 : ℕ) ^ k ≠ 0 := (Nat.two_pow_pos k).ne'
  rw [Nat.log2_eq_iff (Nat.mul_ne_zero h hpow), pow_add, add_right_comm, pow_add]
  exact ⟨Nat.mul_le_mul_right _ (Nat.log2_self_le h),
    Nat.mul_lt_mul_of_pos_right Nat.lt_log2_self (Nat.two_pow_pos k)⟩

theorem approximates_exact (m : ℕ) (e : ℤ) :
    Approximates (.ofMantissaAndAccuracy m .exact) e (value m e) :=
  ⟨le_rfl, value_lt_value.2 (Nat.lt_succ_self m), fun _ _ => rfl,
    fun h => absurd h (by rintro (h | h) <;> cases h)⟩

/-- A whole number of units is rounded, whatever the unit is. -/
theorem exists_normalize (m : ℕ) (e : ℤ) :
    ∃ w, Means (UnpackedFloat.normalize Format.binary32 m e .positive) w ∧
      Rounds (value m e) w := by
  by_cases hzero : m = 0
  · rw [hzero, value_zero]
    exact ⟨0, rfl, rounds_self 0⟩
  · have hpos : compare (m : ℤ) 0 = .gt := Int.compare_eq_gt.2 (by omega)
    simp only [UnpackedFloat.normalize, hpos, Int.toNat_natCast, UnpackedFloat.round,
      UnpackedFloat.decreaseExponent, Nat.shiftLeft_eq]
    -- bits are added to the mantissa until it has enough of them
    obtain ⟨k, hk⟩ : ∃ k, (e - Format.binary32.targetExponent (totalExponent m e)).toNat = k :=
      ⟨_, rfl⟩
    rw [hk]
    have hvalue : value m e = value (m * 2 ^ k) (e - k) := by
      rw [value_shift, sub_add_cancel]
    have hlog := log2_mul_two_pow hzero k
    rw [hvalue]
    refine exists_round (approximates_exact _ _) ?_
    rw [targetExponent_eq] at hk ⊢
    rw [hlog]
    push_cast
    omega

end Rounding

/-! ## Packing -/

theorem sign_packComponents (exponent : BitVec 8) (mantissa : BitVec 23) :
    Sign.ofBitVec (UnpackedFloat.unpackSign
      (UnpackedFloat.packComponents Format.binary32 .positive exponent mantissa)) = .positive := by
  rw [UnpackedFloat.unpackSign_packComponents]
  rfl

theorem exponent_le {m : ℕ} {e : ℤ} (h : Canonical m e) (hv : value m e ≤ 2 ^ 127) : e ≤ 104 := by
  rcases h.full with hfull | hleast
  · have hle : (2 : ℚ) ^ (23 + e) ≤ 2 ^ (127 : ℤ) := by
      rw [zpow_add₀ two_ne_zero]
      refine le_trans ?_ hv
      rw [value]
      exact mul_le_mul_of_nonneg_right (by exact_mod_cast hfull) (two_zpow_pos e).le
    have hexponents := (zpow_le_zpow_iff_right₀ one_lt_two).1 hle
    omega
  · omega

theorem pack_finite (m : ℕ) (e : ℤ) (hpos : 0 < m) :
    UnpackedFloat.pack Format.binary32 (.finite .positive m e hpos) =
      if 2 ^ 8 ≤ (e + 127 + 23).toNat + 1 then
        UnpackedFloat.packedInfinity Format.binary32 .positive
      else if m.log2 + 1 = 24 then
        UnpackedFloat.packComponents Format.binary32 .positive (.ofNat 8 (e + 127 + 23).toNat)
          (.ofNat 23 m)
      else UnpackedFloat.packComponents Format.binary32 .positive 0#8 (.ofNat 23 m) :=
  rfl

/-- The highest bit is left out of a mantissa that has all its bits. -/
theorem toNat_implicit (mantissa : BitVec 23) :
    (1#1 ++ mantissa).toNat = 2 ^ 23 + mantissa.toNat := by
  rw [BitVec.toNat_append, Nat.shiftLeft_eq, mul_comm,
    ← Nat.two_pow_add_eq_or_of_lt mantissa.isLt]
  rfl

theorem unpack_components (exponent : BitVec 8) (mantissa : BitVec 23) :
    UnpackedFloat.unpack Format.binary32
        (UnpackedFloat.packComponents Format.binary32 .positive exponent mantissa) =
      if exponent = -1#8 then if mantissa = 0#23 then .infinity .positive else .notANumber
      else if exponent = 0#8 then
        if h : mantissa = 0#23 then .zero .positive
        else .finite .positive mantissa.toNat (exponent.toNat - (127 + 23) + 1)
          (by simpa [BitVec.toNat_pos, BitVec.pos_iff_ne_zero] using h)
      else .finite .positive (1#1 ++ mantissa).toNat (exponent.toNat - (127 + 23))
        (by rw [toNat_implicit]; omega) := by
  unfold UnpackedFloat.unpack
  simp only [UnpackedFloat.unpackExponent_packComponents,
    UnpackedFloat.unpackMantissa_packComponents, sign_packComponents]
  rfl

/-- The highest bit of a full mantissa is left out, and comes back. -/
theorem unpack_pack_normal {m : ℕ} {e : ℤ} (hpos : 0 < m) (h : Canonical m e) (he : e ≤ 104)
    (hnormal : 2 ^ 23 ≤ m) :
    UnpackedFloat.unpack Format.binary32 (UnpackedFloat.pack Format.binary32
      (.finite .positive m e hpos)) = .finite .positive m e hpos := by
  obtain ⟨hbits, hleast, -⟩ := h
  have hlog : m.log2 = 23 := (Nat.log2_eq_iff hpos.ne').2 ⟨hnormal, hbits⟩
  have hexponent : (BitVec.ofNat 8 (e + 127 + 23).toNat).toNat = (e + 127 + 23).toNat :=
    (BitVec.toNat_ofNat ..).trans (Nat.mod_eq_of_lt (by omega))
  have hmantissa : (1#1 ++ BitVec.ofNat 23 m).toNat = m := by
    rw [toNat_implicit, BitVec.toNat_ofNat]
    omega
  have hnumber : BitVec.ofNat 8 (e + 127 + 23).toNat ≠ -1#8 := by
    rw [Ne, ← BitVec.toNat_inj, hexponent]
    show ¬ _ = 255
    omega
  have hother : BitVec.ofNat 8 (e + 127 + 23).toNat ≠ 0#8 := by
    rw [Ne, ← BitVec.toNat_inj, hexponent]
    show ¬ _ = 0
    omega
  rw [pack_finite, if_neg (by omega), if_pos (by omega), unpack_components, if_neg hnumber,
    if_neg hother]
  simp only [hmantissa, hexponent]
  congr 1
  omega

/-- All other mantissas have the least exponent, which is not written down. -/
theorem unpack_pack_subnormal {m : ℕ} {e : ℤ} (hpos : 0 < m) (he : e = -149)
    (hsmall : m < 2 ^ 23) :
    UnpackedFloat.unpack Format.binary32 (UnpackedFloat.pack Format.binary32
      (.finite .positive m e hpos)) = .finite .positive m e hpos := by
  have hlog : m.log2 < 23 := (Nat.log2_lt hpos.ne').2 hsmall
  have hmantissa : (BitVec.ofNat 23 m).toNat = m :=
    (BitVec.toNat_ofNat ..).trans (Nat.mod_eq_of_lt hsmall)
  have hsome : BitVec.ofNat 23 m ≠ 0#23 := by
    rw [Ne, ← BitVec.toNat_inj, hmantissa]
    show ¬ m = 0
    omega
  rw [pack_finite, if_neg (by omega), if_neg (by omega), unpack_components, if_neg (by decide),
    if_pos rfl, dif_neg hsome]
  simp only [hmantissa]
  rw [he]
  rfl

/-- Nothing gets lost when a float with a value is packed, if the value is not too large. -/
theorem unpack_pack {f : UnpackedFloat} {v : ℚ} (h : Means f v) (hv : v ≤ 2 ^ 127) :
    UnpackedFloat.unpack Format.binary32 (UnpackedFloat.pack Format.binary32 f) = f := by
  rcases h.cases with ⟨rfl, -⟩ | ⟨m, e, hpos, rfl, hcanonical, rfl⟩
  · rfl
  · by_cases hnormal : 2 ^ 23 ≤ m
    · exact unpack_pack_normal hpos hcanonical (exponent_le hcanonical hv) hnormal
    · exact unpack_pack_subnormal hpos (hcanonical.full.resolve_left hnormal)
        (not_le.1 hnormal)

/-- Two to this power has room above it. -/
theorem representable_bound : Representable (2 ^ 127) := by
  refine ⟨2 ^ 23, 104, by decide, by decide, ?_⟩
  rw [value]
  norm_num

theorem means_pack {f : UnpackedFloat} {v w : ℚ} (h : Means f w) (hrounds : Rounds v w)
    (hv : v ≤ 2 ^ 127) : Means (Float32.Model.pack f).unpack w := by
  show Means (UnpackedFloat.unpack Format.binary32 (UnpackedFloat.pack Format.binary32 f)) w
  rw [unpack_pack h (hrounds.above _ representable_bound hv)]
  exact h

/-! ## Operations -/

section Operations

variable {f g : UnpackedFloat} {x y : Float32} {u v w : ℚ}

theorem value_decreaseExponent {e least : ℤ} (h : least ≤ e) (m : ℕ) :
    value (UnpackedFloat.decreaseExponent m e least).1 least = value m e := by
  rw [UnpackedFloat.decreaseExponent, Nat.shiftLeft_eq]
  exact (value_lower h m).symm

theorem value_add (m n : ℕ) (e : ℤ) : value (m + n) e = value m e + value n e := by
  rw [value, Nat.cast_add, add_mul]
  rfl

theorem value_sub {m n : ℕ} (h : n ≤ m) (e : ℤ) : value (m - n) e = value m e - value n e := by
  rw [value, Nat.cast_sub h, sub_mul]
  rfl

theorem exists_add (hf : Means f v) (hg : Means g u) :
    ∃ w, Means (UnpackedFloat.add Format.binary32 f g) w ∧ Rounds (v + u) w := by
  rcases hf.cases with ⟨rfl, rfl⟩ | ⟨m, e, hpos, rfl, -, rfl⟩
  · rw [zero_add]
    rcases hg.cases with ⟨rfl, rfl⟩ | ⟨m, e, hpos, rfl, -, rfl⟩
    · exact ⟨0, rfl, rounds_self 0⟩
    · exact ⟨_, hg, rounds_self _⟩
  · rcases hg.cases with ⟨rfl, rfl⟩ | ⟨m', e', hpos', rfl, -, rfl⟩
    · rw [add_zero]
      exact ⟨_, hf, rounds_self _⟩
    · have hsum := exists_normalize ((UnpackedFloat.decreaseExponent m e (min e e')).1 +
        (UnpackedFloat.decreaseExponent m' e' (min e e')).1) (min e e')
      rw [value_add, value_decreaseExponent (min_le_left e e') m,
        value_decreaseExponent (min_le_right e e') m'] at hsum
      exact hsum

/-- The difference, if it is not below zero. -/
theorem exists_sub (hf : Means f v) (hg : Means g u) (h : u ≤ v) :
    ∃ w, Means (UnpackedFloat.sub Format.binary32 f g) w ∧ Rounds (v - u) w := by
  rcases hg.cases with ⟨rfl, rfl⟩ | ⟨m', e', hpos', rfl, -, rfl⟩
  · rw [sub_zero]
    rcases hf.cases with ⟨rfl, rfl⟩ | ⟨m, e, hpos, rfl, -, rfl⟩
    · exact ⟨0, rfl, rounds_self 0⟩
    · exact ⟨_, hf, rounds_self _⟩
  · rcases hf.cases with ⟨rfl, rfl⟩ | ⟨m, e, hpos, rfl, -, rfl⟩
    · exact absurd h (value_pos hpos' e').not_ge
    · rw [← value_decreaseExponent (min_le_left e e') m,
        ← value_decreaseExponent (min_le_right e e') m'] at h ⊢
      have hle := value_le_value.1 h
      have hdifference := exists_normalize ((UnpackedFloat.decreaseExponent m e (min e e')).1 -
        (UnpackedFloat.decreaseExponent m' e' (min e e')).1) (min e e')
      rw [value_sub hle, Nat.cast_sub hle] at hdifference
      exact hdifference

theorem approximates_of {m : ℕ} {e : ℤ} {accuracy : Accuracy} (hlow : value m e ≤ v)
    (hhigh : v < value (m + 1) e) (hexact : accuracy = .exact ↔ v = value m e) :
    Approximates (.ofMantissaAndAccuracy m accuracy) e v := by
  cases accuracy with
  | exact =>
      rw [hexact.1 rfl]
      exact approximates_exact m e
  | inexact position =>
      have hne : v ≠ value m e := fun h => nomatch hexact.2 h
      have hlt : value m e < v := lt_of_le_of_ne hlow hne.symm
      cases position with
      | lt => exact ⟨hlow, hhigh, fun _ h => (nomatch h), fun _ => hlt⟩
      | eq => exact ⟨hlow, hhigh, fun h => (nomatch h), fun _ => hlt⟩
      | gt => exact ⟨hlow, hhigh, fun h => (nomatch h), fun _ => hlt⟩

/-- The quotient of two mantissas, and where the exact one is. -/
theorem approximates_quotient (m : ℕ) {n : ℕ} (hn : 0 < n) (e : ℤ) :
    Approximates (.ofMantissaAndAccuracy (m / n) (UnpackedFloat.accuracyOfFraction (m % n) n)) e
      (m / n * 2 ^ e) := by
  have hn' : (0 : ℚ) < n := Nat.cast_pos.2 hn
  refine approximates_of ?_ ?_ ?_
  · exact mul_le_mul_of_nonneg_right Nat.cast_div_le (two_zpow_pos e).le
  · refine mul_lt_mul_of_pos_right ?_ (two_zpow_pos e)
    rw [div_lt_iff₀ hn', ← Nat.cast_mul, Nat.cast_lt, mul_comm]
    exact Nat.lt_mul_div_succ m hn
  · have hdivides : m % n = 0 ↔ m = m / n * n := by
      have hsum := Nat.div_add_mod m n
      rw [mul_comm] at hsum
      omega
    have hvalue : (m : ℚ) / n * 2 ^ e = value (m / n) e ↔ m = m / n * n := by
      rw [value, mul_left_inj' (two_zpow_pos e).ne', div_eq_iff hn'.ne', ← Nat.cast_mul,
        Nat.cast_inj]
    rw [hvalue, ← hdivides, UnpackedFloat.accuracyOfFraction]
    by_cases hzero : m % n = 0
    · simp only [hzero, if_pos]
    · simp only [hzero, if_false, iff_false]
      exact fun h => nomatch h

/-- The quotient has enough bits: the dividend gets them before it is divided. -/
theorem le_targetExponent_quotient {m n k : ℕ} {e : ℤ} (hm : 0 < m) (hn : 0 < n)
    (h : e = -149 ∨ e < -149 ∨ (24 : ℤ) + n.log2 ≤ m.log2 + k) :
    e ≤ Format.binary32.targetExponent (totalExponent (m * 2 ^ k / n) e) := by
  rw [targetExponent_eq]
  rcases h with h | h | h
  · omega
  · omega
  · have hquotient : 2 ^ 23 ≤ m * 2 ^ k / n := by
      rw [Nat.le_div_iff_mul_le hn]
      have hdivisor : n < 2 ^ (n.log2 + 1) := Nat.lt_log2_self
      have hdividend : 2 ^ (m.log2 + k) ≤ m * 2 ^ k := by
        rw [pow_add]
        exact Nat.mul_le_mul_right _ (Nat.log2_self_le hm.ne')
      calc 2 ^ 23 * n ≤ 2 ^ 23 * 2 ^ (n.log2 + 1) := Nat.mul_le_mul_left _ hdivisor.le
        _ = 2 ^ (24 + n.log2) := by rw [← pow_add]; congr 1; omega
        _ ≤ 2 ^ (m.log2 + k) := Nat.pow_le_pow_right two_pos (by omega)
        _ ≤ m * 2 ^ k := hdividend
    have hlog := (Nat.le_log2 (by omega)).2 hquotient
    omega

/-- The quotient, if the divisor is not zero. -/
theorem exists_div (hf : Means f v) (hg : Means g u) (hu : 0 < u) :
    ∃ w, Means (UnpackedFloat.div Format.binary32 f g) w ∧ Rounds (v / u) w := by
  rcases hg.cases with ⟨-, rfl⟩ | ⟨n, e', hn, rfl, -, rfl⟩
  · exact hu.false.elim
  rcases hf.cases with ⟨rfl, rfl⟩ | ⟨m, e, hm, rfl, -, rfl⟩
  · rw [zero_div]
    exact ⟨0, rfl, rounds_self 0⟩
  · obtain ⟨least, hleast⟩ : ∃ least : ℤ, min (e - e') (Format.binary32.targetExponent
        (totalExponent m e - totalExponent n e')) = least := ⟨_, rfl⟩
    obtain ⟨k, hk⟩ : ∃ k : ℕ, (e - e' - least).toNat = k := ⟨_, rfl⟩
    have htarget : Format.binary32.targetExponent (totalExponent m e - totalExponent n e') =
        max (m.log2 + 1 + e - (n.log2 + 1 + e') - 24) (-149) := rfl
    have hbits := hleast
    rw [htarget] at hbits
    have hvalue : value m e / value n e' = ((m * 2 ^ k : ℕ) : ℚ) / n * 2 ^ least := by
      have hexponents : e = e' + (k + least) := by omega
      have hn' : (n : ℚ) ≠ 0 := Nat.cast_ne_zero.2 hn.ne'
      rw [value, value, hexponents, zpow_add₀ two_ne_zero, zpow_add₀ two_ne_zero, zpow_natCast,
        Nat.cast_mul, Nat.cast_pow, Nat.cast_two]
      have hpow := (two_zpow_pos e').ne'
      field_simp
    rw [hvalue]
    have hround := exists_round (approximates_quotient (m * 2 ^ k) hn least)
      (le_targetExponent_quotient hm hn (by omega))
    simp only [UnpackedFloat.div, UnpackedFloat.divCore, hleast, hk, Nat.shiftLeft_eq]
    exact hround

/-! ### Singles -/

theorem Holds.add (hx : Holds x v) (hy : Holds y u) (h : v + u ≤ 2 ^ 127) :
    ∃ w, Holds (x + y) w ∧ Rounds (v + u) w := by
  obtain ⟨w, hsum, hrounds⟩ := exists_add hx hy
  exact ⟨w, means_pack hsum hrounds h, hrounds⟩

theorem Holds.sub (hx : Holds x v) (hy : Holds y u) (hle : u ≤ v) (h : v - u ≤ 2 ^ 127) :
    ∃ w, Holds (x - y) w ∧ Rounds (v - u) w := by
  obtain ⟨w, hdifference, hrounds⟩ := exists_sub hx hy hle
  exact ⟨w, means_pack hdifference hrounds h, hrounds⟩

theorem Holds.div (hx : Holds x v) (hy : Holds y u) (hu : 0 < u) (h : v / u ≤ 2 ^ 127) :
    ∃ w, Holds (x / y) w ∧ Rounds (v / u) w := by
  obtain ⟨w, hquotient, hrounds⟩ := exists_div hx hy hu
  exact ⟨w, means_pack hquotient hrounds h, hrounds⟩

theorem holds_toFloat32 (n : UInt32) : ∃ w, Holds n.toFloat32 w ∧ Rounds n.toNat w := by
  obtain ⟨w, hnormalized, hrounds⟩ := exists_normalize n.toNat 0
  rw [value_natCast] at hrounds
  refine ⟨w, means_pack hnormalized hrounds ?_, hrounds⟩
  have hsize : (n.toNat : ℚ) < 2 ^ 32 := by exact_mod_cast n.toNat_lt
  exact hsize.le.trans (pow_le_pow_right₀ one_le_two (by decide))

/-- Whole numbers of at most 24 bits are not rounded. -/
theorem holds_toFloat32_small {n : UInt32} (h : n.toNat < 2 ^ 24) : Holds n.toFloat32 n.toNat := by
  obtain ⟨w, hholds, hrounds⟩ := holds_toFloat32 n
  rw [hrounds.eq (representable_natCast h)] at hholds
  exact hholds

theorem holds_of_unpack {m : ℕ} {e : ℤ} (hpos : 0 < m)
    (h : x.toModel.unpack = .finite .positive m e hpos) (hcanonical : Canonical m e) :
    Holds x (value m e) := by
  show Means x.toModel.unpack (value m e)
  rw [h]
  exact ⟨hcanonical, rfl⟩

theorem Holds.representable (h : Holds x v) : Representable v := by
  rcases Means.cases h with ⟨-, rfl⟩ | ⟨m, e, -, -, hcanonical, rfl⟩
  · exact_mod_cast representable_natCast (n := 0) (by decide)
  · exact hcanonical.representable

theorem Holds.nonneg (h : Holds x v) : 0 ≤ v := by
  rcases Means.cases h with ⟨-, rfl⟩ | ⟨m, e, -, -, -, rfl⟩
  · exact le_rfl
  · exact value_nonneg m e

theorem Holds.isFinite (h : Holds x v) : x.isFinite = true := by
  show x.toModel.unpack.isFinite = true
  rcases Means.cases h with ⟨heq, -⟩ | ⟨m, e, hpos, heq, -⟩
  · rw [heq]
    rfl
  · rw [heq]
    rfl

/-- With a greater exponent, a value is greater. -/
theorem value_lt_of_exponent {m m' : ℕ} {e e' : ℤ} (h : Canonical m e) (h' : Canonical m' e')
    (hlt : e < e') : value m e < value m' e' := by
  have hfull : 2 ^ 23 ≤ m' := h'.full.resolve_right (by have := h.least; omega)
  have hbits := h.bits
  obtain ⟨k, hk⟩ : ∃ k, (e' - e).toNat = k + 1 := ⟨(e' - e).toNat - 1, by omega⟩
  have hone : 1 ≤ 2 ^ k := Nat.one_le_two_pow
  rw [value_lower hlt.le m', value_lt_value, hk, pow_succ]
  nlinarith

/-- There is one way to write a value. -/
theorem Canonical.eq_of_value {m m' : ℕ} {e e' : ℤ} (h : Canonical m e) (h' : Canonical m' e')
    (heq : value m e = value m' e') : m = m' ∧ e = e' := by
  rcases lt_trichotomy e e' with hlt | rfl | hlt
  · exact absurd heq (value_lt_of_exponent h h' hlt).ne
  · exact ⟨le_antisymm (value_le_value.1 heq.le) (value_le_value.1 heq.ge), rfl⟩
  · exact absurd heq.symm (value_lt_of_exponent h' h hlt).ne

/-- Values are compared by their exponents first, and then by their mantissas. -/
theorem compare_means (hf : Means f v) (hg : Means g u) :
    (v < u ∧ f.compare g = some .lt) ∨ (v = u ∧ f.compare g = some .eq) ∨
      (u < v ∧ f.compare g = some .gt) := by
  rcases hf.cases with ⟨rfl, rfl⟩ | ⟨m, e, hm, rfl, hcanonical, rfl⟩
  · rcases hg.cases with ⟨rfl, rfl⟩ | ⟨n, e', hn, rfl, hcanonical', rfl⟩
    · exact .inr (.inl ⟨rfl, rfl⟩)
    · exact .inl ⟨value_pos hn e', rfl⟩
  · rcases hg.cases with ⟨rfl, rfl⟩ | ⟨n, e', hn, rfl, hcanonical', rfl⟩
    · exact .inr (.inr ⟨value_pos hm e, rfl⟩)
    · rcases lt_trichotomy e e' with hexponent | rfl | hexponent
      · refine .inl ⟨value_lt_of_exponent hcanonical hcanonical' hexponent, ?_⟩
        show some ((compare e e').then (compare m n)) = _
        rw [Int.compare_eq_lt.2 hexponent]
        rfl
      · have hcompare : UnpackedFloat.compare (.finite .positive m e hm)
            (.finite .positive n e hn) = some (compare m n) := by
          show some ((compare e e).then (compare m n)) = _
          rw [Int.compare_eq_eq.2 rfl]
          rfl
        rw [hcompare]
        rcases lt_trichotomy m n with hmantissa | rfl | hmantissa
        · exact .inl ⟨value_lt_value.2 hmantissa, by rw [Nat.compare_eq_lt.2 hmantissa]⟩
        · exact .inr (.inl ⟨rfl, by rw [Nat.compare_eq_eq.2 rfl]⟩)
        · exact .inr (.inr ⟨value_lt_value.2 hmantissa, by rw [Nat.compare_eq_gt.2 hmantissa]⟩)
      · refine .inr (.inr ⟨value_lt_of_exponent hcanonical' hcanonical hexponent, ?_⟩)
        show some ((compare e e').then (compare m n)) = _
        rw [Int.compare_eq_gt.2 hexponent]
        rfl

theorem Holds.lt_iff (hx : Holds x v) (hy : Holds y u) : x < y ↔ v < u := by
  rw [Single.lt_iff]
  rcases compare_means hx hy with ⟨hlt, hcompare⟩ | ⟨heq, hcompare⟩ | ⟨hgt, hcompare⟩
  · exact iff_of_true hcompare hlt
  · rw [hcompare]
    exact iff_of_false (by decide) (not_lt.2 heq.ge)
  · rw [hcompare]
    exact iff_of_false (by decide) (not_lt.2 hgt.le)

theorem Holds.le_iff (hx : Holds x v) (hy : Holds y u) : x ≤ y ↔ v ≤ u := by
  show x.le y = true ↔ _
  unfold Float32.le
  rw [decide_eq_true_eq]
  show (x.toModel.unpack.compare y.toModel.unpack).any (·.isLE) = true ↔ _
  rcases compare_means hx hy with ⟨hlt, hcompare⟩ | ⟨heq, hcompare⟩ | ⟨hgt, hcompare⟩
  · rw [hcompare]
    exact iff_of_true rfl hlt.le
  · rw [hcompare]
    exact iff_of_true rfl heq.le
  · rw [hcompare]
    exact iff_of_false (by decide) (not_le.2 hgt)

/-- The mantissa over a whole unit is the whole part of the value. -/
theorem roundToInt_eq (m : ℕ) (e : ℤ) :
    UnpackedFloat.roundToInt .positive m e = ⌊value m e⌋₊ := by
  obtain ⟨k, hk⟩ : ∃ k, (0 - (e - (e - 0).toNat)).toNat = k := ⟨_, rfl⟩
  have hshifted := (approximates_exact (m * 2 ^ (e - 0).toNat) (e - (e - 0).toNat)).shiftRight k
  have hexponent : e - (e - 0).toNat + k = 0 := by omega
  have hvalue : value (m * 2 ^ (e - 0).toNat) (e - (e - 0).toNat) = value m e := by
    rw [value_shift, sub_add_cancel]
  rw [hexponent, hvalue] at hshifted
  have hfloor := (Nat.floor_eq_iff (value_nonneg m e)).2
    ⟨value_natCast _ ▸ hshifted.low, by
      have hhigh := hshifted.high
      rw [value_natCast, Nat.cast_succ] at hhigh
      exact hhigh⟩
  rw [hfloor]
  simp only [UnpackedFloat.roundToInt, UnpackedFloat.decreaseExponent,
    UnpackedFloat.shiftToExponent, Nat.shiftLeft_eq, hk]
  rfl

/-- A value loses its fraction when it is converted. -/
theorem Holds.toNat_toUInt32 (hx : Holds x v) (hv : v < 2 ^ 32) : x.toUInt32.toNat = ⌊v⌋₊ := by
  have hsize : ⌊v⌋₊ < UInt32.size := (Nat.floor_lt hx.nonneg).2 (by exact_mod_cast hv)
  have hint : x.toModel.unpack.toInt 0 (UInt32.size - 1) = ⌊v⌋₊ := by
    rcases Means.cases hx with ⟨heq, rfl⟩ | ⟨m, e, hpos, heq, -, rfl⟩
    · rw [heq, Nat.floor_zero]
      rfl
    · rw [heq]
      exact roundToInt_eq m e
  show (UInt32.ofNatClamp (x.toModel.unpack.toInt 0 (UInt32.size - 1)).toNat).toNat = _
  rw [hint, Int.toNat_natCast, UInt32.toNat_ofNatClamp_of_lt hsize]

end Operations

end Famicom.Audio.Single
