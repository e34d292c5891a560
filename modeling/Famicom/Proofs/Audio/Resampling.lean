import Famicom.Audio.Resampler
import Mathlib

/-!
# A resampler is restored once

A restored resampler has its sum and its clock cleared where they are no numbers, and
its clock and its count moved into the time of one sample. This file proves that a
second restore finds nothing more to do (`Resampler.restore_restore`):

* **signs** — the time of a sample is the quotient of two numbers of cycles, so that
  it is not below zero (`Resampler.interval_not_lt`);
* **comparisons** — no single is less than itself, and one between zero and another
  single is finite (`Single.lt_irrefl`, `Single.isFinite_of_lt`);
* **bounds** — what was moved between two bounds stays there (`Resampler.clamp_clamp`).

Nothing is said about how far a quotient is rounded.
-/

namespace Famicom.Audio

/-! ## Singles -/

namespace Single

open Float.Model (Format UnpackedFloat)
open Float.Model.UnpackedFloat (Sign)

/-- No number below zero: the sign is positive, if there is a number at all. -/
def Unsigned : UnpackedFloat → Prop
  | .notANumber => True
  | .infinity sign | .zero sign | .finite sign .. => sign = .positive

/-! ### Signs -/

/-- The sign is one bit of a single, whatever the rest was rounded to. -/
theorem unpackSign_pack {f : UnpackedFloat} (h : Unsigned f) :
    UnpackedFloat.unpackSign (UnpackedFloat.pack Format.binary32 f) = 0#1 := by
  cases f with
  | notANumber => exact UnpackedFloat.unpackSign_packComponents ..
  | infinity sign =>
      obtain rfl : sign = .positive := h
      exact UnpackedFloat.unpackSign_packComponents ..
  | zero sign =>
      obtain rfl : sign = .positive := h
      exact UnpackedFloat.unpackSign_packComponents ..
  | finite sign mantissa exponent hpos =>
      obtain rfl : sign = .positive := h
      unfold UnpackedFloat.pack
      simp only []
      split
      · exact UnpackedFloat.unpackSign_packComponents ..
      split
      · exact UnpackedFloat.unpackSign_packComponents ..
      · exact UnpackedFloat.unpackSign_packComponents ..

theorem unsigned_unpack {bits : BitVec Format.binary32.numBits}
    (h : UnpackedFloat.unpackSign bits = 0#1) :
    Unsigned (UnpackedFloat.unpack Format.binary32 bits) := by
  unfold UnpackedFloat.unpack
  simp only [h]
  split
  · split
    · rfl
    · exact trivial
  split
  · split
    · rfl
    · rfl
  · rfl

theorem unsigned_pack {f : UnpackedFloat} (h : Unsigned f) :
    Unsigned (Float32.Model.pack f).unpack :=
  unsigned_unpack (unpackSign_pack h)

theorem unsigned_round (spec : Format) (mantissa : Nat) (exponent : Int)
    (accuracy : UnpackedFloat.Accuracy) :
    Unsigned (UnpackedFloat.roundWithAccuracy spec .positive mantissa exponent accuracy) := by
  unfold UnpackedFloat.roundWithAccuracy
  simp only []
  split
  · rfl
  · rfl

theorem unsigned_toFloat32 (n : UInt32) : Unsigned n.toFloat32.toModel.unpack := by
  refine unsigned_pack ?_
  show Unsigned (UnpackedFloat.normalize Format.binary32 n.toNat 0 .positive)
  unfold UnpackedFloat.normalize
  split
  · -- a number of cycles is not negative
    rename_i hnegative
    have := Int.compare_eq_lt.1 hnegative
    omega
  · rfl
  · exact unsigned_round ..

theorem unsigned_div {x y : Float32} (hx : Unsigned x.toModel.unpack)
    (hy : Unsigned y.toModel.unpack) : Unsigned (x / y).toModel.unpack := by
  refine unsigned_pack ?_
  generalize x.toModel.unpack = a at hx
  generalize y.toModel.unpack = b at hy
  cases a <;> cases b
  case finite.finite =>
    obtain rfl := hx
    obtain rfl := hy
    exact unsigned_round ..
  all_goals
    cases hx
    cases hy
    trivial

/-! ### Comparisons -/

theorem lt_iff {x y : Float32} :
    x < y ↔ x.toModel.unpack.compare y.toModel.unpack = some .lt := by
  show x.lt y = true ↔ _
  unfold Float32.lt
  rw [decide_eq_true_eq]
  exact beq_iff_eq

theorem unpack_zero : (0.0 : Float32).toModel.unpack = .zero .positive := rfl

theorem not_lt_zero {x : Float32} (h : Unsigned x.toModel.unpack) : ¬ x < 0.0 := by
  rw [lt_iff, unpack_zero]
  generalize x.toModel.unpack = f at h
  intro hlt
  cases f with
  | notANumber => cases hlt
  | infinity sign =>
      obtain rfl : sign = .positive := h
      cases hlt
  | zero sign => cases hlt
  | finite sign mantissa exponent hpos =>
      obtain rfl : sign = .positive := h
      cases hlt

theorem lt_irrefl (x : Float32) : ¬ x < x := by
  rw [lt_iff]
  cases x.toModel.unpack with
  | notANumber => exact fun hlt => nomatch hlt
  | infinity sign => cases sign <;> exact fun hlt => nomatch hlt
  | zero sign => exact fun hlt => nomatch hlt
  | finite sign mantissa exponent hpos => cases sign <;> simp [UnpackedFloat.compare]

/-- Something is greater, so it is not infinite. -/
theorem isFinite_of_lt {x y : Float32} (hzero : ¬ x < 0.0) (hlt : x < y) :
    x.isFinite = true := by
  rw [lt_iff, unpack_zero] at hzero
  rw [lt_iff] at hlt
  show x.toModel.unpack.isFinite = true
  generalize x.toModel.unpack = f at hzero hlt
  generalize y.toModel.unpack = g at hlt
  cases f with
  | notANumber => cases hlt
  | infinity sign =>
      cases sign with
      | negative => exact absurd rfl hzero
      | positive =>
          cases g with
          | infinity sign => cases sign <;> cases hlt
          | _ => cases hlt
  | zero sign => rfl
  | finite sign mantissa exponent hpos => rfl

end Single

/-! ## Bounds -/

namespace Resampler

/-- The time of a sample is not below zero, whatever the rate is. -/
theorem interval_not_lt (rate : UInt32) : ¬ interval rate < 0.0 :=
  Single.not_lt_zero
    (Single.unsigned_div (Single.unsigned_toFloat32 cpuFrequency) (Single.unsigned_toFloat32 rate))

variable {low high x : Float32}

theorem clamp_eq (hlow : ¬ x < low) (hhigh : ¬ high < x) : clamp low high x = x := by
  unfold clamp
  simp only [gt_iff_lt, if_neg hlow, if_neg hhigh]

theorem clamp_cases (h : ¬ high < low) (x : Float32) :
    clamp low high x = low ∨ (high < x ∧ clamp low high x = high) ∨
      (¬ x < low ∧ ¬ high < x ∧ clamp low high x = x) := by
  by_cases hlow : x < low
  · left
    unfold clamp
    simp only [gt_iff_lt, if_pos hlow, if_neg h]
  · by_cases hhigh : high < x
    · refine .inr (.inl ⟨hhigh, ?_⟩)
      unfold clamp
      simp only [gt_iff_lt, if_neg hlow, if_pos hhigh]
    · exact .inr (.inr ⟨hlow, hhigh, clamp_eq hlow hhigh⟩)

/-- Between its bounds a value is not moved again. -/
theorem clamp_clamp (h : ¬ high < low) (x : Float32) :
    clamp low high (clamp low high x) = clamp low high x := by
  obtain hx | ⟨-, hx⟩ | ⟨-, -, hx⟩ := clamp_cases h x
  · rw [hx]
    exact clamp_eq (Single.lt_irrefl low) h
  · rw [hx]
    exact clamp_eq h (Single.lt_irrefl high)
  · rw [hx, hx]

theorem isFinite_clamp (h : ¬ high < 0.0) (hx : x.isFinite = true) :
    (clamp 0.0 high x).isFinite = true := by
  obtain hc | ⟨hlt, hc⟩ | ⟨-, -, hc⟩ := clamp_cases h x
  · rw [hc]
    rfl
  · rw [hc]
    exact Single.isFinite_of_lt h hlt
  · rw [hc]
    exact hx

theorem isFinite_finiteOrZero (x : Float32) : (finiteOrZero x).isFinite = true := by
  unfold finiteOrZero
  split
  · assumption
  · rfl

theorem finiteOrZero_eq (h : x.isFinite = true) : finiteOrZero x = x := if_pos h

/-- **A restored resampler is restored to itself**, at whatever rate. The bound of the
clock is a single as well, so it is needed that the clock comes out finite. -/
theorem restore_restore (rate : UInt32) (saved : Resampler) :
    (saved.restore rate).restore rate = saved.restore rate := by
  have hinterval := interval_not_lt rate
  have hsum := finiteOrZero_eq (isFinite_finiteOrZero saved.sum)
  have hclock := finiteOrZero_eq
    (isFinite_clamp hinterval (isFinite_finiteOrZero saved.clock))
  have hcount (n bound : UInt32) : min (min n bound) bound = min n bound :=
    if_pos Std.min_le_right
  simp only [restore, hsum, hclock, hcount, clamp_clamp hinterval]

end Resampler

end Famicom.Audio
