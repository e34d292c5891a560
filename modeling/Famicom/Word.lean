/-!
# Bytes and words

The processor keeps words low byte first and divides its addresses into pages
of 256 bytes.
-/

namespace Famicom

namespace Word

@[inline] def ofBytes (low high : UInt8) : UInt16 :=
  (high.toUInt16 <<< 8) ||| low.toUInt16

@[inline] def low (w : UInt16) : UInt8 := w.toUInt8

/-- The high byte of a word, which is its page when the word is an address. -/
@[inline] def high (w : UInt16) : UInt8 := (w >>> 8).toUInt8

@[inline] def samePage (a b : UInt16) : Bool := a &&& 0xFF00 == b &&& 0xFF00

/-- A byte read as a signed displacement of an address. -/
@[inline] def signExtend (b : UInt8) : UInt16 :=
  if b &&& 0x80 == 0 then b.toUInt16 else b.toUInt16 ||| 0xFF00

theorem toNat_low (w : UInt16) : (low w).toNat = w.toNat % 256 := by
  simp [low]

theorem toNat_high (w : UInt16) : (high w).toNat = w.toNat / 256 := by
  have := w.toNat_lt
  simp only [high, UInt16.toNat_toUInt8, UInt16.toNat_shiftRight, Nat.shiftRight_eq_div_pow,
    UInt16.reduceToNat, Nat.reduceMod]
  omega

theorem toNat_ofBytes (l h : UInt8) : (ofBytes l h).toNat = 256 * h.toNat + l.toNat := by
  have hl := l.toNat_lt
  have hh := h.toNat_lt
  have sum := Nat.shiftLeft_add_eq_or_of_lt hl h.toNat
  simp only [Nat.shiftLeft_eq] at sum
  simp only [ofBytes, UInt16.toNat_or, UInt16.toNat_shiftLeft, UInt8.toNat_toUInt16,
    UInt16.reduceToNat, Nat.shiftLeft_eq, Nat.reduceMod,
    Nat.mod_eq_of_lt (show h.toNat * 2 ^ 8 < 2 ^ 16 by omega)]
  omega

@[simp] theorem low_ofBytes (l h : UInt8) : low (ofBytes l h) = l := by
  have := l.toNat_lt
  rw [← UInt8.toNat_inj, toNat_low, toNat_ofBytes]
  omega

@[simp] theorem high_ofBytes (l h : UInt8) : high (ofBytes l h) = h := by
  have := l.toNat_lt
  rw [← UInt8.toNat_inj, toNat_high, toNat_ofBytes]
  omega

@[simp] theorem ofBytes_low_high (w : UInt16) : ofBytes (low w) (high w) = w := by
  rw [← UInt16.toNat_inj, toNat_ofBytes, toNat_low, toNat_high]
  omega

end Word

theorem Byte.mod_sixteen_lt (b : UInt8) : b.toNat % 16 < 16 := Nat.mod_lt _ (by decide)

/-- Whether any bit of `mask` is set in `byte`. -/
@[inline] def hasBits (byte mask : UInt8) : Bool := byte &&& mask != 0

end Famicom
