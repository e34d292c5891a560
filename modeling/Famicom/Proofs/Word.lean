import Famicom.Word
import Mathlib.Algebra.Group.Nat.Defs

/-!
# Fields of words

A register of the machine is a word or a byte with fields in it, and a mask picks
one of them. Here masks become arithmetic: the field of `len` bits from bit `lo`
on is a quotient and a remainder, and bounds by powers of two survive the logical
operations.
-/

namespace Famicom

/-- The `len` bits of a number from bit `lo` on, where they stand. -/
theorem Nat.and_field (x lo len : Nat) :
    x &&& (2 ^ len - 1) * 2 ^ lo = x / 2 ^ lo % 2 ^ len * 2 ^ lo := by
  apply Nat.eq_of_testBit_eq
  intro i
  rw [Nat.testBit_and, Nat.testBit_mul_two_pow, Nat.testBit_mul_two_pow]
  by_cases hi : lo ≤ i
  · rw [Nat.testBit_two_pow_sub_one, Nat.testBit_mod_two_pow, Nat.testBit_div_two_pow]
    simp only [hi, decide_true, Bool.true_and, Nat.sub_add_cancel hi]
    exact Bool.and_comm _ _
  · simp [hi]

namespace Word

/-! ## Words -/

/-- A mask of neighbouring bits picks a field. -/
theorem toNat_and_field {mask : UInt16} (w : UInt16) (lo len : Nat)
    (hmask : mask.toNat = (2 ^ len - 1) * 2 ^ lo) :
    (w &&& mask).toNat = w.toNat / 2 ^ lo % 2 ^ len * 2 ^ lo := by
  rw [UInt16.toNat_and, hmask, Nat.and_field]

/-- A mask of the lowest bits is a remainder. -/
theorem toNat_and_low {mask : UInt16} (w : UInt16) (len : Nat) (hmask : mask.toNat = 2 ^ len - 1) :
    (w &&& mask).toNat = w.toNat % 2 ^ len := by
  rw [UInt16.toNat_and, hmask, Nat.and_two_pow_sub_one_eq_mod]

theorem and_low_lt {mask bound : UInt16} (w : UInt16) (len : Nat)
    (hmask : mask.toNat = 2 ^ len - 1) (hbound : bound.toNat = 2 ^ len) : w &&& mask < bound := by
  rw [UInt16.lt_iff_toNat_lt, toNat_and_low w len hmask, hbound]
  exact Nat.mod_lt _ (Nat.two_pow_pos len)

/-- A mask changes nothing where the bound is kept. -/
theorem and_low_eq {mask bound w : UInt16} (len : Nat) (hmask : mask.toNat = 2 ^ len - 1)
    (hbound : bound.toNat = 2 ^ len) (hw : w < bound) : w &&& mask = w := by
  rw [UInt16.lt_iff_toNat_lt, hbound] at hw
  rw [← UInt16.toNat_inj, toNat_and_low w len hmask, Nat.mod_eq_of_lt hw]

/-- A bound of a word survives any mask. -/
theorem and_lt {bound : UInt16} {w : UInt16} (mask : UInt16) (hw : w < bound) :
    w &&& mask < bound := by
  rw [UInt16.lt_iff_toNat_lt] at hw ⊢
  rw [UInt16.toNat_and]
  exact Nat.lt_of_le_of_lt Nat.and_le_left hw

theorem or_lt {x y : UInt16} (len : Nat) (hx : x.toNat < 2 ^ len) (hy : y.toNat < 2 ^ len) :
    (x ||| y).toNat < 2 ^ len := by
  rw [UInt16.toNat_or]
  exact Nat.or_lt_two_pow hx hy

theorem xor_lt {x y : UInt16} (len : Nat) (hx : x.toNat < 2 ^ len) (hy : y.toNat < 2 ^ len) :
    (x ^^^ y).toNat < 2 ^ len := by
  rw [UInt16.toNat_xor]
  exact Nat.xor_lt_two_pow hx hy

/-! ### Fields by number -/

/-- The `len` bits of a word from bit `lo` on, as a number. -/
def field (w : UInt16) (lo len : Nat) : Nat := w.toNat / 2 ^ lo % 2 ^ len

theorem field_lt (w : UInt16) (lo len : Nat) : field w lo len < 2 ^ len :=
  Nat.mod_lt _ (Nat.two_pow_pos len)

/-- Two neighbouring fields are one field. -/
theorem field_append (w : UInt16) (lo m n : Nat) :
    field w lo (m + n) = field w lo m + 2 ^ m * field w (lo + m) n := by
  simp only [field]
  rw [Nat.pow_add, Nat.mod_mul, Nat.div_div_eq_div_mul, ← Nat.pow_add]

theorem field_and (x y : UInt16) (lo len : Nat) :
    field (x &&& y) lo len = field x lo len &&& field y lo len := by
  rw [field, UInt16.toNat_and, Nat.and_div_two_pow, Nat.and_mod_two_pow]
  rfl

theorem field_or (x y : UInt16) (lo len : Nat) :
    field (x ||| y) lo len = field x lo len ||| field y lo len := by
  rw [field, UInt16.toNat_or, Nat.or_div_two_pow, Nat.or_mod_two_pow]
  rfl

theorem field_xor (x y : UInt16) (lo len : Nat) :
    field (x ^^^ y) lo len = field x lo len ^^^ field y lo len := by
  rw [field, UInt16.toNat_xor, Nat.xor_div_two_pow, Nat.xor_mod_two_pow]
  rfl

/-- A mask keeps a field that it covers. -/
theorem field_and_all {w mask : UInt16} {lo len : Nat} (h : field mask lo len = 2 ^ len - 1) :
    field (w &&& mask) lo len = field w lo len := by
  rw [field_and, h, Nat.and_two_pow_sub_one_of_lt_two_pow (field_lt w lo len)]

/-- A mask clears a field that it does not cover. -/
theorem field_and_none {w mask : UInt16} {lo len : Nat} (h : field mask lo len = 0) :
    field (w &&& mask) lo len = 0 := by
  rw [field_and, h, Nat.and_zero]

theorem field_xor_none {w mask : UInt16} {lo len : Nat} (h : field mask lo len = 0) :
    field (w ^^^ mask) lo len = field w lo len := by
  rw [field_xor, h, Nat.xor_zero]

theorem toNat_succ {w : UInt16} (h : w.toNat < 65535) : (w + 1).toNat = w.toNat + 1 := by
  rw [UInt16.toNat_add]
  simp only [UInt16.reduceToNat]
  omega

/-- One place on, the places further on are one less far away. -/
theorem add_succ_ofNat (w : UInt16) (k : Nat) : w + 1 + .ofNat k = w + .ofNat (k + 1) := by
  rw [UInt16.ofNat_add, UInt16.add_assoc, UInt16.add_comm 1]
  rfl

theorem one_le {w : UInt16} (h : w ≠ 0) : 1 ≤ w := by
  have hne : w.toNat ≠ 0 := fun heq => h (UInt16.toNat_inj.1 heq)
  exact UInt16.le_iff_toNat_le.2 (Nat.pos_of_ne_zero hne)

/-- One less than a word that is not zero. -/
theorem toNat_pred {w : UInt16} (h : w ≠ 0) : w.toNat ≠ 0 ∧ (w - 1).toNat = w.toNat - 1 :=
  ⟨fun heq => h (UInt16.toNat_inj.1 heq), UInt16.toNat_sub_of_le _ _ (one_le h)⟩

end Word

/-! ## Bytes -/

namespace Byte

theorem toNat_and_low {mask : UInt8} (b : UInt8) (len : Nat) (hmask : mask.toNat = 2 ^ len - 1) :
    (b &&& mask).toNat = b.toNat % 2 ^ len := by
  rw [UInt8.toNat_and, hmask, Nat.and_two_pow_sub_one_eq_mod]

theorem and_low_lt {mask bound : UInt8} (b : UInt8) (len : Nat)
    (hmask : mask.toNat = 2 ^ len - 1) (hbound : bound.toNat = 2 ^ len) : b &&& mask < bound := by
  rw [UInt8.lt_iff_toNat_lt, toNat_and_low b len hmask, hbound]
  exact Nat.mod_lt _ (Nat.two_pow_pos len)

theorem and_low_eq {mask bound b : UInt8} (len : Nat) (hmask : mask.toNat = 2 ^ len - 1)
    (hbound : bound.toNat = 2 ^ len) (hb : b < bound) : b &&& mask = b := by
  rw [UInt8.lt_iff_toNat_lt, hbound] at hb
  rw [← UInt8.toNat_inj, toNat_and_low b len hmask, Nat.mod_eq_of_lt hb]

theorem add_succ_ofNat (b : UInt8) (k : Nat) : b + 1 + .ofNat k = b + .ofNat (k + 1) := by
  rw [UInt8.ofNat_add, UInt8.add_assoc, UInt8.add_comm 1]
  rfl

/-- Less than 256 places on there is another byte. -/
theorem add_ofNat_ne {b : UInt8} {k : Nat} (hpos : 0 < k) (hk : k < 256) : b + .ofNat k ≠ b := by
  intro heq
  have hzero : (UInt8.ofNat k).toNat = (0 : UInt8).toNat :=
    congrArg UInt8.toNat (UInt8.add_eq_left.1 heq)
  rw [UInt8.toNat_ofNat_of_lt' hk] at hzero
  simp only [UInt8.reduceToNat] at hzero
  omega

theorem one_le {b : UInt8} (h : b ≠ 0) : 1 ≤ b := by
  have hne : b.toNat ≠ 0 := fun heq => h (UInt8.toNat_inj.1 heq)
  exact UInt8.le_iff_toNat_le.2 (Nat.pos_of_ne_zero hne)

/-- A mask of neighbouring bits picks a field. -/
theorem toNat_and_field {mask : UInt8} (b : UInt8) (lo len : Nat)
    (hmask : mask.toNat = (2 ^ len - 1) * 2 ^ lo) :
    (b &&& mask).toNat = b.toNat / 2 ^ lo % 2 ^ len * 2 ^ lo := by
  rw [UInt8.toNat_and, hmask, Nat.and_field]

/-- With its lowest bit set a byte is odd. -/
theorem toNat_or_one (b : UInt8) : (b ||| 0x01).toNat = b.toNat / 2 * 2 + 1 := by
  have hupper : (b.toNat ||| 1) / 2 = b.toNat / 2 := by
    rw [Nat.or_div_two]
    exact Nat.or_zero _
  have hlowest : (b.toNat ||| 1) % 2 = 1 := Nat.or_mod_two_eq_one.2 (.inr rfl)
  rw [UInt8.toNat_or]
  simp only [UInt8.reduceToNat]
  omega

/-- A mask of one bit asks for that bit. -/
theorem hasBits_eq_testBit {mask : UInt8} (b : UInt8) (i : Nat) (hmask : mask.toNat = 2 ^ i) :
    hasBits b mask = b.toNat.testBit i := by
  have hfield := toNat_and_field b i 1 (hmask.trans (Nat.one_mul _).symm)
  rw [Nat.pow_one] at hfield
  rw [hasBits, Nat.testBit_eq_decide_div_mod_eq, Bool.eq_iff_iff, bne_iff_ne, ne_eq,
    ← UInt8.toNat_inj, hfield, decide_eq_true_eq]
  rcases Nat.mod_two_eq_zero_or_one (b.toNat / 2 ^ i) with h | h <;> rw [h] <;> simp

/-- A bit of a mask is a bit of every larger one. -/
theorem hasBits_or_left {byte a : UInt8} (h : hasBits byte a = true) (b : UInt8) :
    hasBits byte (a ||| b) = true := by
  have hdistrib : byte &&& (a ||| b) = (byte &&& a) ||| (byte &&& b) := by
    rw [← UInt8.toNat_inj]
    simp only [UInt8.toNat_and, UInt8.toNat_or]
    exact Nat.and_or_distrib_left ..
  unfold hasBits at h ⊢
  rw [bne_iff_ne] at h ⊢
  rw [hdistrib]
  intro hzero
  exact h (UInt8.or_eq_zero_iff.1 hzero).1

end Byte

end Famicom
