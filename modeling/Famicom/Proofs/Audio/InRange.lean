import Famicom.Audio.SoundUnit
import Famicom.Proofs.Word

/-!
# The registers of the sound unit keep their widths

Every part of a channel has an invariant of its own: what a restore would cut
off is not there. Two of them say more than a width. The noise register is never
empty, since the feedback of a single bit comes in at the top (`Noise.shift_ne`),
and the sequencer does not run past the boundary of its step
(`Sequencer.InRange.advance`).

* **preservation** — registers and cycles keep it (`SoundUnit.InRange.write`,
  `SoundUnit.InRange.tick`);
* **restoring** — a restore establishes it (`SoundUnit.inRange_restore`), and
  changes nothing but the resampler where it holds
  (`SoundUnit.InRange.restore_save`).
-/

namespace Famicom.Audio

/-! ## Envelopes -/

namespace Envelope

/-- The three volumes have four bits. -/
structure InRange (e : Envelope) : Prop where
  divider : e.divider < 16
  decay : e.decay < 16
  volume : e.volume < 16

theorem inRange_silent : silent.InRange := ⟨by decide, by decide, by decide⟩

theorem InRange.write {e : Envelope} (h : e.InRange) (value : UInt8) : (e.write value).InRange :=
  ⟨h.divider, h.decay, Byte.and_low_lt value 4 rfl rfl⟩

theorem InRange.restart {e : Envelope} (h : e.InRange) : e.restart.InRange :=
  ⟨h.divider, h.decay, h.volume⟩

theorem InRange.clock {e : Envelope} (h : e.InRange) : e.clock.InRange := by
  obtain ⟨hdivider, hdecay, hvolume⟩ := h
  unfold Envelope.clock
  split
  · exact ⟨hvolume, show (15 : UInt8) < 16 by decide, hvolume⟩
  split
  · refine ⟨hvolume, ?_, hvolume⟩
    show (if e.decay > 0 then e.decay - 1 else if e.looping then 15 else 0) < 16
    split
    · grind
    split <;> decide
  · refine ⟨?_, hdecay, hvolume⟩
    show e.divider - 1 < 16
    grind

theorem output_lt {e : Envelope} (h : e.InRange) : e.output < 16 := by
  unfold output
  split
  · exact h.volume
  · exact h.decay

theorem inRange_restore (saved : Envelope) : saved.restore.InRange :=
  ⟨Byte.and_low_lt _ 4 rfl rfl, Byte.and_low_lt _ 4 rfl rfl, Byte.and_low_lt _ 4 rfl rfl⟩

theorem InRange.restored {e : Envelope} (h : e.InRange) : e.restore = e := by
  rcases e with ⟨start, divider, decay, volume, constant, looping⟩
  have hdivider : divider &&& 0x0F = divider := Byte.and_low_eq 4 rfl rfl h.divider
  have hdecay : decay &&& 0x0F = decay := Byte.and_low_eq 4 rfl rfl h.decay
  have hvolume : volume &&& 0x0F = volume := Byte.and_low_eq 4 rfl rfl h.volume
  simp only [restore, hdivider, hdecay, hvolume]

end Envelope

/-! ## Sweeps -/

namespace Sweep

/-- Shift, period and divider have three bits. -/
structure InRange (s : Sweep) : Prop where
  shift : s.shift < 8
  period : s.period < 8
  divider : s.divider < 8

theorem inRange_idle (extraDecrement : Bool) : (idle extraDecrement).InRange :=
  ⟨show (0 : UInt8) < 8 by decide, show (0 : UInt8) < 8 by decide, show (0 : UInt8) < 8 by decide⟩

theorem InRange.write {s : Sweep} (h : s.InRange) (value : UInt8) : (s.write value).InRange :=
  ⟨Byte.and_low_lt _ 3 rfl rfl, Byte.and_low_lt _ 3 rfl rfl, h.divider⟩

theorem clock_fst (s : Sweep) (current : UInt16) :
    (s.clock current).1 = if s.moves current then s.target current else current := by
  by_cases hd : (s.divider == 0 || s.reload) = true
  · simp only [clock, if_pos hd]
  · simp only [clock, if_neg hd]

theorem clock_snd (s : Sweep) (current : UInt16) :
    (s.clock current).2 =
      if s.divider == 0 || s.reload then { s with divider := s.period, reload := false }
      else { s with divider := s.divider - 1 } := by
  by_cases hd : (s.divider == 0 || s.reload) = true
  · simp only [clock, if_pos hd]
  · simp only [clock, if_neg hd]

theorem InRange.clock {s : Sweep} (h : s.InRange) (current : UInt16) :
    (s.clock current).2.InRange := by
  rw [clock_snd]
  split
  · exact ⟨h.shift, h.period, h.period⟩
  · rename_i hd
    refine ⟨h.shift, h.period, ?_⟩
    have := h.divider
    show s.divider - 1 < 8
    grind

/-- The period keeps its eleven bits: a greater one is not moved to. -/
theorem clock_le {s : Sweep} {current : UInt16} (h : current ≤ longest) :
    (s.clock current).1 ≤ longest := by
  rw [clock_fst]
  split
  · rename_i hmoves
    simp only [moves, Bool.and_eq_true, decide_eq_true_eq] at hmoves
    exact hmoves.2
  · exact h

theorem clock_extraDecrement (s : Sweep) (current : UInt16) :
    (s.clock current).2.extraDecrement = s.extraDecrement := by
  rw [clock_snd]
  split <;> rfl

theorem inRange_restore (saved s : Sweep) : (saved.restore s).InRange :=
  ⟨Byte.and_low_lt _ 3 rfl rfl, Byte.and_low_lt _ 3 rfl rfl, Byte.and_low_lt _ 3 rfl rfl⟩

theorem InRange.restored {s : Sweep} (h : s.InRange) {s' : Sweep}
    (hextra : s'.extraDecrement = s.extraDecrement) : s.restore s' = s := by
  rcases s with ⟨enabled, negate, shift, period, divider, reload, extra⟩
  have hshift : shift &&& 0x07 = shift := Byte.and_low_eq 3 rfl rfl h.shift
  have hperiod : period &&& 0x07 = period := Byte.and_low_eq 3 rfl rfl h.period
  have hdivider : divider &&& 0x07 = divider := Byte.and_low_eq 3 rfl rfl h.divider
  simp only [restore, hshift, hperiod, hdivider, hextra]

end Sweep

/-! ## Pulses -/

namespace Pulse

/-- Period and timer have eleven bits, the step three and the pattern two. -/
structure InRange (c : Pulse) : Prop where
  period : c.period < 0x800
  timer : c.timer < 0x800
  step : c.step < 8
  duty : c.duty < 4
  envelope : c.envelope.InRange
  sweep : c.sweep.InRange

theorem inRange_powerOn (extraDecrement : Bool) : (powerOn extraDecrement).InRange :=
  ⟨show (0 : UInt16) < 0x800 by decide, show (0 : UInt16) < 0x800 by decide,
    show (0 : UInt8) < 8 by decide, show (0 : UInt8) < 4 by decide, Envelope.inRange_silent,
    Sweep.inRange_idle extraDecrement⟩

theorem setLow_lt (value : UInt8) (period : UInt16) : setLow value period < 0x800 := by
  have hhigh : (period &&& 0x0700).toNat < 2 ^ 11 := by
    rw [Word.toNat_and_field period 8 3 rfl]
    omega
  have hlow : value.toUInt16.toNat < 2 ^ 11 := by
    have := value.toNat_lt
    rw [UInt8.toNat_toUInt16]
    omega
  rw [UInt16.lt_iff_toNat_lt]
  exact Word.or_lt 11 hhigh hlow

theorem setHigh_lt (value : UInt8) (period : UInt16) : setHigh value period < 0x800 := by
  have hlow : (period &&& 0x00FF).toNat < 2 ^ 11 := by
    rw [Word.toNat_and_low period 8 rfl]
    omega
  have hhigh : ((value &&& 0x07).toUInt16 <<< 8).toNat < 2 ^ 11 := by
    have hbits := @Byte.toNat_and_low 0x07 value 3 rfl
    rw [UInt16.toNat_shiftLeft, UInt8.toNat_toUInt16, hbits, Nat.shiftLeft_eq]
    simp only [UInt16.reduceToNat, Nat.reduceMod, Nat.reducePow]
    omega
  rw [UInt16.lt_iff_toNat_lt]
  exact Word.or_lt 11 hlow hhigh

theorem InRange.write {c : Pulse} (h : c.InRange) (register : UInt16) (value : UInt8) :
    (c.write register value).InRange := by
  obtain ⟨hperiod, htimer, hstep, hduty, henvelope, hsweep⟩ := h
  unfold Pulse.write
  split
  · exact ⟨hperiod, htimer, hstep, Byte.and_low_lt _ 2 rfl rfl, henvelope.write value, hsweep⟩
  · exact ⟨hperiod, htimer, hstep, hduty, henvelope, hsweep.write value⟩
  · exact ⟨setLow_lt _ _, htimer, hstep, hduty, henvelope, hsweep⟩
  · exact ⟨setHigh_lt _ _, htimer, show (0 : UInt8) < 8 by decide, hduty, henvelope.restart,
      hsweep⟩

theorem InRange.clockTimer {c : Pulse} (h : c.InRange) : c.clockTimer.InRange := by
  obtain ⟨hperiod, htimer, hstep, hduty, henvelope, hsweep⟩ := h
  unfold Pulse.clockTimer
  split
  · refine ⟨hperiod, hperiod, ?_, hduty, henvelope, hsweep⟩
    show (c.step + 1) % 8 < 8
    grind
  · refine ⟨hperiod, ?_, hstep, hduty, henvelope, hsweep⟩
    show c.timer - 1 < 0x800
    grind

theorem InRange.clockSweep {c : Pulse} (h : c.InRange) : c.clockSweep.InRange := by
  have hle : (c.sweep.clock c.period).1 ≤ 0x7FF := by
    refine Sweep.clock_le ?_
    have := h.period
    show c.period ≤ 0x7FF
    grind
  refine ⟨?_, h.timer, h.step, h.duty, h.envelope, h.sweep.clock c.period⟩
  show (c.sweep.clock c.period).1 < 0x800
  grind

theorem InRange.withLength {c : Pulse} (h : c.InRange) (length : LengthCounter) :
    { c with length }.InRange :=
  ⟨h.period, h.timer, h.step, h.duty, h.envelope, h.sweep⟩

theorem InRange.clockEnvelope {c : Pulse} (h : c.InRange) :
    { c with envelope := c.envelope.clock }.InRange :=
  ⟨h.period, h.timer, h.step, h.duty, h.envelope.clock, h.sweep⟩

theorem output_lt {c : Pulse} (h : c.InRange) : c.output < 16 := by
  unfold output
  split
  · exact Envelope.output_lt h.envelope
  · decide

theorem inRange_restore (saved c : Pulse) : (saved.restore c).InRange :=
  ⟨Word.and_low_lt _ 11 rfl rfl, Word.and_low_lt _ 11 rfl rfl, Byte.and_low_lt _ 3 rfl rfl,
    Byte.and_low_lt _ 2 rfl rfl, Envelope.inRange_restore _, Sweep.inRange_restore _ _⟩

theorem InRange.restored {c : Pulse} (h : c.InRange) {c' : Pulse}
    (hextra : c'.sweep.extraDecrement = c.sweep.extraDecrement) : c.restore c' = c := by
  rcases c with ⟨period, timer, step, duty, envelope, length, sweep⟩
  have hperiod : period &&& 0x07FF = period := Word.and_low_eq 11 rfl rfl h.period
  have htimer : timer &&& 0x07FF = timer := Word.and_low_eq 11 rfl rfl h.timer
  have hstep : step &&& 0x07 = step := Byte.and_low_eq 3 rfl rfl h.step
  have hduty : duty &&& 0x03 = duty := Byte.and_low_eq 2 rfl rfl h.duty
  have henvelope : envelope.restore = envelope := h.envelope.restored
  have hsweep : sweep.restore c'.sweep = sweep := h.sweep.restored hextra
  simp only [restore, hperiod, htimer, hstep, hduty, henvelope, hsweep]

end Pulse

/-! ## The triangle -/

namespace Triangle

/-- Period and timer have eleven bits, the step five and the linear counter
seven. -/
structure InRange (c : Triangle) : Prop where
  period : c.period < 0x800
  timer : c.timer < 0x800
  step : c.step < 32
  linear : c.linear < 128
  linearReload : c.linearReload < 128

theorem inRange_powerOn : powerOn.InRange :=
  ⟨by decide, by decide, by decide, by decide, by decide⟩

theorem InRange.write {c : Triangle} (h : c.InRange) (register : UInt16) (value : UInt8) :
    (c.write register value).InRange := by
  obtain ⟨hperiod, htimer, hstep, hlinear, hreload⟩ := h
  unfold Triangle.write
  split
  · exact ⟨hperiod, htimer, hstep, hlinear, Byte.and_low_lt _ 7 rfl rfl⟩
  · exact ⟨hperiod, htimer, hstep, hlinear, hreload⟩
  · exact ⟨Pulse.setLow_lt _ _, htimer, hstep, hlinear, hreload⟩
  · exact ⟨Pulse.setHigh_lt _ _, htimer, hstep, hlinear, hreload⟩

theorem InRange.clockTimer {c : Triangle} (h : c.InRange) : c.clockTimer.InRange := by
  obtain ⟨hperiod, htimer, hstep, hlinear, hreload⟩ := h
  unfold Triangle.clockTimer
  split
  · refine ⟨hperiod, hperiod, ?_, hlinear, hreload⟩
    show (if c.length.active && c.linear > 0 then (c.step + 1) % 32 else c.step) < 32
    split
    · grind
    · exact hstep
  · refine ⟨hperiod, ?_, hstep, hlinear, hreload⟩
    show c.timer - 1 < 0x800
    grind

theorem InRange.clockLinear {c : Triangle} (h : c.InRange) : c.clockLinear.InRange := by
  obtain ⟨hperiod, htimer, hstep, hlinear, hreload⟩ := h
  refine ⟨hperiod, htimer, hstep, ?_, hreload⟩
  show (if c.reload then c.linearReload else if c.linear > 0 then c.linear - 1 else c.linear) < 128
  split
  · exact hreload
  split
  · grind
  · exact hlinear

theorem InRange.withLength {c : Triangle} (h : c.InRange) (length : LengthCounter) :
    { c with length }.InRange :=
  ⟨h.period, h.timer, h.step, h.linear, h.linearReload⟩

theorem output_lt {c : Triangle} (h : c.InRange) : c.output < 16 := by
  have hstep := h.step
  unfold output level
  split
  · decide
  · split <;> grind

theorem inRange_restore (saved : Triangle) : saved.restore.InRange :=
  ⟨Word.and_low_lt _ 11 rfl rfl, Word.and_low_lt _ 11 rfl rfl, Byte.and_low_lt _ 5 rfl rfl,
    Byte.and_low_lt _ 7 rfl rfl, Byte.and_low_lt _ 7 rfl rfl⟩

theorem InRange.restored {c : Triangle} (h : c.InRange) : c.restore = c := by
  rcases c with ⟨period, timer, step, length, linear, linearReload, reload, control⟩
  have hperiod : period &&& 0x07FF = period := Word.and_low_eq 11 rfl rfl h.period
  have htimer : timer &&& 0x07FF = timer := Word.and_low_eq 11 rfl rfl h.timer
  have hstep : step &&& 0x1F = step := Byte.and_low_eq 5 rfl rfl h.step
  have hlinear : linear &&& 0x7F = linear := Byte.and_low_eq 7 rfl rfl h.linear
  have hreload : linearReload &&& 0x7F = linearReload := Byte.and_low_eq 7 rfl rfl h.linearReload
  simp only [restore, hperiod, htimer, hstep, hlinear, hreload]

end Triangle

/-! ## Noise -/

namespace Noise

/-- The shift register has fifteen bits and is never empty. -/
structure InRange (c : Noise) : Prop where
  bits : c.bits < 0x8000
  nonempty : c.bits ≠ 0
  envelope : c.envelope.InRange

theorem inRange_powerOn : powerOn.InRange :=
  ⟨by decide, by decide, Envelope.inRange_silent⟩

theorem toNat_shift (short : Bool) (bits : UInt16) :
    (shift short bits).toNat =
      bits.toNat / 2 ||| (bits.toNat ^^^ bits.toNat / (if short then 64 else 2)) % 2 * 0x4000 := by
  have hfeedback (other : UInt16) : (((bits ^^^ other) &&& 1) <<< 14).toNat =
      (bits.toNat ^^^ other.toNat) % 2 * 0x4000 := by
    have hbit := @Word.toNat_and_low 1 (bits ^^^ other) 1 rfl
    rw [UInt16.toNat_shiftLeft, hbit, UInt16.toNat_xor, Nat.shiftLeft_eq]
    simp only [UInt16.reduceToNat, Nat.reduceMod, Nat.reducePow]
    omega
  unfold shift
  simp only []
  rw [UInt16.toNat_or, hfeedback]
  cases short <;> simp [Nat.shiftRight_eq_div_pow]

theorem shift_lt (short : Bool) {bits : UInt16} (h : bits < 0x8000) :
    shift short bits < 0x8000 := by
  rw [UInt16.lt_iff_toNat_lt] at h ⊢
  rw [toNat_shift]
  simp only [UInt16.reduceToNat] at h
  exact Nat.or_lt_two_pow (n := 15) (by omega) (by omega)

/-- A register of one bit is not emptied: if the bit is the lowest, it comes in
again at the top. -/
theorem shift_ne (short : Bool) {bits : UInt16} (h : bits ≠ 0) : shift short bits ≠ 0 := by
  intro hzero
  have hzero := congrArg UInt16.toNat hzero
  rw [toNat_shift] at hzero
  obtain ⟨hhalf, hfeedback⟩ := Nat.or_eq_zero_iff.1 hzero
  -- only the lowest bit can have gone, and then the feedback is set
  have hone : bits.toNat = 1 := by
    have : bits.toNat ≠ 0 := fun he => h (UInt16.toNat_inj.1 he)
    omega
  rw [hone] at hfeedback
  cases short <;> simp at hfeedback

theorem InRange.write {c : Noise} (h : c.InRange) (register : UInt16) (value : UInt8) :
    (c.write register value).InRange := by
  unfold Noise.write
  split
  · exact ⟨h.bits, h.nonempty, h.envelope.write value⟩
  · exact h
  · exact ⟨h.bits, h.nonempty, h.envelope⟩
  · exact ⟨h.bits, h.nonempty, h.envelope.restart⟩

theorem InRange.clockTimer {c : Noise} (h : c.InRange) : c.clockTimer.InRange := by
  unfold Noise.clockTimer
  split
  · exact ⟨shift_lt _ h.bits, shift_ne _ h.nonempty, h.envelope⟩
  · exact ⟨h.bits, h.nonempty, h.envelope⟩

theorem InRange.withLength {c : Noise} (h : c.InRange) (length : LengthCounter) :
    { c with length }.InRange :=
  ⟨h.bits, h.nonempty, h.envelope⟩

theorem InRange.clockEnvelope {c : Noise} (h : c.InRange) :
    { c with envelope := c.envelope.clock }.InRange :=
  ⟨h.bits, h.nonempty, h.envelope.clock⟩

theorem output_lt {c : Noise} (h : c.InRange) : c.output < 16 := by
  unfold output
  split
  · decide
  · exact Envelope.output_lt h.envelope

theorem inRange_restore (saved : Noise) : saved.restore.InRange := by
  refine ⟨?_, ?_, Envelope.inRange_restore _⟩
  · show (if saved.bits &&& 0x7FFF == 0 then 1 else saved.bits &&& 0x7FFF) < (0x8000 : UInt16)
    split
    · decide
    · exact Word.and_low_lt _ 15 rfl rfl
  · show (if saved.bits &&& 0x7FFF == 0 then 1 else saved.bits &&& 0x7FFF) ≠ (0 : UInt16)
    split
    · decide
    · rename_i h
      simpa using h

theorem InRange.restored {c : Noise} (h : c.InRange) : c.restore = c := by
  rcases c with ⟨period, timer, bits, short, envelope, length⟩
  have hbits : bits &&& 0x7FFF = bits := Word.and_low_eq 15 rfl rfl h.bits
  have hnonempty : (bits == 0) = false := by simpa using h.nonempty
  have henvelope : envelope.restore = envelope := h.envelope.restored
  simp only [restore, hbits, hnonempty, henvelope, Bool.false_eq_true, if_false]

end Noise

/-! ## Delta samples -/

namespace Delta

/-- The output has seven bits, one to eight bits are being played, and samples
lie in the upper half of the address space. -/
structure InRange (c : Delta) : Prop where
  level : c.level < 128
  bitsLeft_pos : 1 ≤ c.bitsLeft
  bitsLeft_le : c.bitsLeft ≤ 8
  sampleAddress : 0x8000 ≤ c.sampleAddress
  address : 0x8000 ≤ c.address

theorem inRange_powerOn : powerOn.InRange :=
  ⟨by decide, by decide, by decide, by decide, by decide⟩

theorem le_or_left {x : UInt16} (y : UInt16) (h : 0x8000 ≤ x) : 0x8000 ≤ x ||| y := by
  rw [UInt16.le_iff_toNat_le] at h ⊢
  rw [UInt16.toNat_or]
  exact Nat.le_trans h Nat.left_le_or

/-- A word has its highest bit if it is large, so setting it changes nothing. -/
theorem or_high_eq {x : UInt16} (h : 0x8000 ≤ x) : x ||| 0x8000 = x := by
  have hlow := Nat.and_field x.toNat 15 1
  have hx := x.toNat_lt
  rw [UInt16.le_iff_toNat_le] at h
  simp only [UInt16.reduceToNat] at h
  rw [← UInt16.toNat_inj, UInt16.toNat_or]
  apply Nat.eq_of_testBit_eq
  intro i
  have hbit := congrArg (Nat.testBit · i) hlow
  have hquotient : x.toNat / 2 ^ 15 % 2 ^ 1 = 1 := by omega
  simp only [Nat.testBit_and, hquotient] at hbit
  simp only [Nat.testBit_or, UInt16.reduceToNat]
  simp only [Nat.reducePow, Nat.reduceSub, Nat.reduceMul] at hbit
  rw [← hbit]
  cases x.toNat.testBit i <;> simp

theorem InRange.write {c : Delta} (h : c.InRange) (register : UInt16) (value : UInt8) :
    (c.write register value).InRange := by
  obtain ⟨hlevel, hpos, hle, hsample, haddress⟩ := h
  unfold Delta.write
  split
  · exact ⟨hlevel, hpos, hle, hsample, haddress⟩
  · exact ⟨Byte.and_low_lt _ 7 rfl rfl, hpos, hle, hsample, haddress⟩
  · exact ⟨hlevel, hpos, hle, le_or_left _ (by decide), haddress⟩
  · exact ⟨hlevel, hpos, hle, hsample, haddress⟩

theorem InRange.setEnabled {c : Delta} (h : c.InRange) (enabled : Bool) :
    (c.setEnabled enabled).InRange := by
  obtain ⟨hlevel, hpos, hle, hsample, haddress⟩ := h
  unfold Delta.setEnabled
  simp only []
  split
  · exact ⟨hlevel, hpos, hle, hsample, haddress⟩
  split
  · exact ⟨hlevel, hpos, hle, hsample, hsample⟩
  · exact ⟨hlevel, hpos, hle, hsample, haddress⟩

theorem move_lt (bit : Bool) {level : UInt8} (h : level < 128) : move bit level < 128 := by
  unfold move
  split
  · split
    · grind
    · exact h
  · split
    · grind
    · exact h

theorem playBit_lt {c : Delta} (h : c.level < 128) : c.playBit.level < 128 := by
  unfold playBit
  split
  · exact h
  · exact move_lt _ h

/-- Playing a bit concerns the output and the shift register alone. -/
theorem playBit_fields (c : Delta) :
    c.playBit.bitsLeft = c.bitsLeft ∧ c.playBit.sampleAddress = c.sampleAddress ∧
      c.playBit.address = c.address := by
  unfold playBit
  split <;> exact ⟨rfl, rfl, rfl⟩

theorem InRange.clockOutput {c : Delta} (h : c.InRange) : c.clockOutput.InRange := by
  have hlevel := playBit_lt h.level
  obtain ⟨hbits, hsample, haddress⟩ := c.playBit_fields
  have hsample : 0x8000 ≤ c.playBit.sampleAddress := hsample ▸ h.sampleAddress
  have haddress : 0x8000 ≤ c.playBit.address := haddress ▸ h.address
  unfold Delta.clockOutput
  simp only []
  split
  · unfold takeBuffer
    simp only []
    split
    · exact ⟨hlevel, show (1 : UInt8) ≤ 8 by decide, UInt8.le_refl 8, hsample, haddress⟩
    · exact ⟨hlevel, show (1 : UInt8) ≤ 8 by decide, UInt8.le_refl 8, hsample, haddress⟩
  · rename_i hne
    have hpos := h.bitsLeft_pos
    have hle := h.bitsLeft_le
    rw [hbits] at hne
    refine ⟨hlevel, ?_, ?_, hsample, haddress⟩
    · show 1 ≤ c.playBit.bitsLeft - 1
      rw [hbits]
      grind
    · show c.playBit.bitsLeft - 1 ≤ 8
      rw [hbits]
      grind

theorem InRange.clockTimer {c : Delta} (h : c.InRange) : c.clockTimer.InRange := by
  unfold Delta.clockTimer
  split
  · exact InRange.clockOutput ⟨h.level, h.bitsLeft_pos, h.bitsLeft_le, h.sampleAddress, h.address⟩
  · exact ⟨h.level, h.bitsLeft_pos, h.bitsLeft_le, h.sampleAddress, h.address⟩

theorem le_nextAddress {address : UInt16} (h : 0x8000 ≤ address) :
    0x8000 ≤ nextAddress address := by
  unfold nextAddress
  split
  · decide
  · grind

theorem InRange.deliver {c : Delta} (h : c.InRange) (byte : UInt8) : (c.deliver byte).InRange := by
  obtain ⟨hlevel, hpos, hle, hsample, haddress⟩ := h
  have hnext := le_nextAddress haddress
  unfold Delta.deliver
  simp only []
  split
  · exact ⟨hlevel, hpos, hle, hsample, haddress⟩
  unfold finishSample
  split
  · exact ⟨hlevel, hpos, hle, hsample, hnext⟩
  split
  · exact ⟨hlevel, hpos, hle, hsample, hsample⟩
  · exact ⟨hlevel, hpos, hle, hsample, hnext⟩

theorem inRange_restore (saved : Delta) : saved.restore.InRange := by
  refine ⟨Byte.and_low_lt _ 7 rfl rfl, ?_, ?_, ?_, ?_⟩
  · show 1 ≤ if 1 ≤ min saved.bitsLeft 8 then min saved.bitsLeft 8 else 1
    split
    · assumption
    · decide
  · show (if 1 ≤ min saved.bitsLeft 8 then min saved.bitsLeft 8 else 1) ≤ 8
    split
    · exact Std.min_le_right
    · decide
  · show 0x8000 ≤ saved.sampleAddress ||| 0x8000
    rw [UInt16.or_comm]
    exact le_or_left _ (UInt16.le_refl _)
  · show 0x8000 ≤ saved.address ||| 0x8000
    rw [UInt16.or_comm]
    exact le_or_left _ (UInt16.le_refl _)

theorem InRange.restored {c : Delta} (h : c.InRange) : c.restore = c := by
  obtain ⟨hlevel, hpos, hle, hsample, haddress⟩ := h
  have hlevel : c.level &&& 0x7F = c.level := Byte.and_low_eq 7 rfl rfl hlevel
  have hmin : min c.bitsLeft 8 = c.bitsLeft := if_pos hle
  have hmax : max 1 c.bitsLeft = c.bitsLeft := if_pos hpos
  simp only [restore, hlevel, hmin, hmax, or_high_eq hsample, or_high_eq haddress]

end Delta

/-! ## The sequencer -/

namespace SequencerMode

theorem mod_steps {m : SequencerMode} {step : UInt8} (h : step < m.steps) :
    step % m.steps = step := by
  cases m <;> simp only [steps] at h ⊢ <;> grind

theorem mod_steps_lt (m : SequencerMode) (step : UInt8) : step % m.steps < m.steps := by
  cases m <;> simp only [steps] <;> grind

/-- The steps of a sequence by number. -/
theorem step_cases {m : SequencerMode} {step : UInt8} (h : step < m.steps) :
    step = 0 ∨ step = 1 ∨ step = 2 ∨ step = 3 ∨ (step = 4 ∧ m = .five) := by
  cases m <;> simp only [steps] at h <;> grind

/-- Every step but the last ends before the next one. -/
theorem boundary_lt {m : SequencerMode} {step : UInt8} (h : step < m.steps)
    (hnext : step + 1 ≠ m.steps) : m.boundary step < m.boundary (step + 1) := by
  obtain rfl | rfl | rfl | rfl | ⟨rfl, rfl⟩ := step_cases h
  · cases m <;> decide
  · cases m <;> decide
  · cases m <;> decide
  · cases m
    · exact absurd rfl hnext
    · decide
  · exact absurd rfl hnext

theorem boundary_le (m : SequencerMode) (step : UInt8) : m.boundary step ≤ 37281 := by
  have table : ∀ i : Fin 5, boundaries[i] ≤ 37281 := by decide
  exact table ⟨(step % m.steps).toNat % 5, Nat.mod_lt _ (by decide)⟩

end SequencerMode

namespace Sequencer

/-- The step is one of the sequence, and the counter has not passed its
boundary. -/
structure InRange (s : Sequencer) : Prop where
  step : s.step < s.mode.steps
  counter : s.counter ≤ s.mode.boundary s.step

theorem inRange_powerOn : powerOn.InRange := ⟨by decide, by decide⟩

theorem InRange.write (s : Sequencer) (value : UInt8) : (s.write value).InRange := by
  unfold Sequencer.write
  split
  · exact ⟨show (0 : UInt8) < 5 by decide, UInt16.zero_le⟩
  · exact ⟨show (0 : UInt8) < 4 by decide, UInt16.zero_le⟩

theorem InRange.wait {s : Sequencer} (h : s.InRange) (hdue : s.due = false) : s.wait.InRange := by
  refine ⟨h.step, ?_⟩
  have hcounter : ¬ s.counter + 1 ≥ s.mode.boundary s.step := by
    simpa only [due, decide_eq_false_iff_not] using hdue
  show s.counter + 1 ≤ s.mode.boundary s.step
  exact UInt16.le_of_lt (UInt16.not_le.1 hcounter)

/-- A step that is due begins the next one, whose boundary is further away, or
ends the sequence. -/
theorem InRange.advance {s : Sequencer} (h : s.InRange) : s.advance.2.InRange := by
  have hcounter := h.counter
  unfold Sequencer.advance
  by_cases hlast : s.step + 1 = s.mode.steps
  · -- the sequence starts over with an empty counter
    have hstep : (s.step + 1) % s.mode.steps = 0 := by
      rw [hlast]
      cases s.mode <;> decide
    simp only [hlast, beq_self_eq_true, if_true]
    refine ⟨?_, UInt16.zero_le⟩
    exact SequencerMode.mod_steps_lt _ _
  · have hnext := SequencerMode.boundary_lt h.step hlast
    have hlt : s.step + 1 < s.mode.steps := by
      have := h.step
      grind
    have hstep := SequencerMode.mod_steps hlt
    have hle : s.counter + 1 ≤ s.mode.boundary (s.step + 1) := by grind
    simp only [beq_iff_eq, hlast, if_false, hstep]
    exact ⟨hlt, hle⟩

theorem inRange_restore (saved : Sequencer) : saved.restore.InRange :=
  ⟨SequencerMode.mod_steps_lt _ _, Std.min_le_right⟩

theorem InRange.restored {s : Sequencer} (h : s.InRange) : s.restore = s := by
  have hstep := SequencerMode.mod_steps h.step
  have hcounter : min s.counter (s.mode.boundary s.step) = s.counter := if_pos h.counter
  simp only [restore, hstep, hcounter]

end Sequencer

/-! ## The sound unit -/

namespace SoundUnit

/-- The channels and the sequencer keep their widths. The resampler may hold
anything. -/
structure InRange (u : SoundUnit) : Prop where
  pulse1 : u.pulse1.InRange
  pulse2 : u.pulse2.InRange
  triangle : u.triangle.InRange
  noise : u.noise.InRange
  delta : u.delta.InRange
  sequencer : u.sequencer.InRange

theorem inRange_powerOn (rate : UInt32) : (powerOn rate).InRange :=
  ⟨Pulse.inRange_powerOn false, Pulse.inRange_powerOn true, Triangle.inRange_powerOn,
    Noise.inRange_powerOn, Delta.inRange_powerOn, Sequencer.inRange_powerOn⟩

/-! ### Clocks -/

/-- Choosing a sequence may clock a half frame at once. -/
theorem exists_writeSequencer (u : SoundUnit) (value : UInt8) :
    ∃ event, u.writeSequencer value =
      { u with sequencer := u.sequencer.write value }.clockFrame event := by
  unfold writeSequencer
  simp only []
  split
  · exact ⟨.half, rfl⟩
  · exact ⟨.nothing, rfl⟩

/-- The clock of the sequencer is passed on to the channels. -/
theorem exists_clockSequencer (u : SoundUnit) :
    ∃ event sequencer, u.clockSequencer = { u with sequencer }.clockFrame event := by
  unfold clockSequencer
  split
  · exact ⟨_, _, rfl⟩
  · exact ⟨.nothing, _, rfl⟩

/-- Collecting the output concerns the resampler and the samples alone. -/
theorem collect_output (u : SoundUnit) :
    ∃ resampler samples, u.collect = { u with resampler, samples } := by
  unfold collect
  simp only []
  split
  · exact ⟨_, _, rfl⟩
  · exact ⟨_, _, rfl⟩

/-! ### Registers -/

theorem InRange.read {u : SoundUnit} (h : u.InRange) (address : UInt16) :
    (u.read address).2.InRange := by
  unfold SoundUnit.read
  split
  · exact ⟨h.pulse1, h.pulse2, h.triangle, h.noise, h.delta, h.sequencer.step,
      h.sequencer.counter⟩
  · exact h

theorem InRange.enable {u : SoundUnit} (h : u.InRange) (value : UInt8) :
    (u.enable value).InRange :=
  ⟨h.pulse1.withLength _, h.pulse2.withLength _, h.triangle.withLength _, h.noise.withLength _,
    h.delta.setEnabled _, h.sequencer⟩

theorem InRange.clockQuarter {u : SoundUnit} (h : u.InRange) : u.clockQuarter.InRange :=
  ⟨h.pulse1.clockEnvelope, h.pulse2.clockEnvelope, h.triangle.clockLinear, h.noise.clockEnvelope,
    h.delta, h.sequencer⟩

theorem InRange.clockHalf {u : SoundUnit} (h : u.InRange) : u.clockHalf.InRange :=
  ⟨(h.pulse1.withLength _).clockSweep, (h.pulse2.withLength _).clockSweep,
    h.triangle.withLength _, h.noise.withLength _, h.delta, h.sequencer⟩

theorem InRange.clockFrame {u : SoundUnit} (h : u.InRange) (event : FrameEvent) :
    (u.clockFrame event).InRange := by
  cases event with
  | nothing => exact h
  | quarter => exact h.clockQuarter
  | half => exact h.clockQuarter.clockHalf

theorem InRange.withSequencer {u : SoundUnit} (h : u.InRange) {sequencer : Sequencer}
    (hs : sequencer.InRange) :
    { u with sequencer }.InRange :=
  ⟨h.pulse1, h.pulse2, h.triangle, h.noise, h.delta, hs⟩

theorem InRange.writeSequencer {u : SoundUnit} (h : u.InRange) (value : UInt8) :
    (u.writeSequencer value).InRange := by
  obtain ⟨event, hwrite⟩ := u.exists_writeSequencer value
  rw [hwrite]
  exact (h.withSequencer (Sequencer.InRange.write u.sequencer value)).clockFrame event

theorem InRange.write {u : SoundUnit} (h : u.InRange) (address : UInt16) (value : UInt8) :
    (u.write address value).InRange := by
  unfold SoundUnit.write
  split
  · exact h
  split
  · exact ⟨h.pulse1.write address value, h.pulse2, h.triangle, h.noise, h.delta, h.sequencer⟩
  split
  · exact ⟨h.pulse1, h.pulse2.write address value, h.triangle, h.noise, h.delta, h.sequencer⟩
  split
  · exact ⟨h.pulse1, h.pulse2, h.triangle.write address value, h.noise, h.delta, h.sequencer⟩
  split
  · exact ⟨h.pulse1, h.pulse2, h.triangle, h.noise.write address value, h.delta, h.sequencer⟩
  split
  · exact ⟨h.pulse1, h.pulse2, h.triangle, h.noise, h.delta.write address value, h.sequencer⟩
  split
  · exact h.enable value
  split
  · exact h.writeSequencer value
  · exact h

/-! ### Cycles -/

theorem InRange.clockTimers {u : SoundUnit} (h : u.InRange) : u.clockTimers.InRange := by
  unfold SoundUnit.clockTimers
  split
  · exact ⟨h.pulse1.clockTimer, h.pulse2.clockTimer, h.triangle.clockTimer, h.noise.clockTimer,
      h.delta.clockTimer, h.sequencer⟩
  · exact ⟨h.pulse1, h.pulse2, h.triangle.clockTimer, h.noise, h.delta.clockTimer, h.sequencer⟩

theorem InRange.clockSequencer {u : SoundUnit} (h : u.InRange) : u.clockSequencer.InRange := by
  unfold SoundUnit.clockSequencer
  split
  · exact (h.withSequencer h.sequencer.advance).clockFrame _
  · rename_i hdue
    exact h.withSequencer (h.sequencer.wait (by simpa using hdue))

theorem InRange.collect {u : SoundUnit} (h : u.InRange) : u.collect.InRange := by
  obtain ⟨resampler, samples, hcollect⟩ := u.collect_output
  rw [hcollect]
  exact ⟨h.pulse1, h.pulse2, h.triangle, h.noise, h.delta, h.sequencer⟩

/-- A cycle keeps all widths. -/
theorem InRange.tick {u : SoundUnit} (h : u.InRange) : u.tick.InRange :=
  h.clockTimers.clockSequencer.collect

theorem InRange.deliver {u : SoundUnit} (h : u.InRange) (byte : UInt8) : (u.deliver byte).InRange :=
  ⟨h.pulse1, h.pulse2, h.triangle, h.noise, h.delta.deliver byte, h.sequencer⟩

theorem InRange.takeSamples {u : SoundUnit} (h : u.InRange) : u.takeSamples.2.InRange :=
  ⟨h.pulse1, h.pulse2, h.triangle, h.noise, h.delta, h.sequencer⟩

/-! ### Saved sound -/

/-- A restore establishes the widths, whatever was saved. -/
theorem inRange_restore (saved : SoundState) (u : SoundUnit) : (restore saved u).InRange :=
  ⟨Pulse.inRange_restore _ _, Pulse.inRange_restore _ _, Triangle.inRange_restore _,
    Noise.inRange_restore _, Delta.inRange_restore _, Sequencer.inRange_restore _⟩

/-! ### What is wired -/

/-- How a sound unit was built: nothing that it does changes it. -/
structure Make where
  rate : UInt32
  extraDecrement1 : Bool
  extraDecrement2 : Bool
deriving DecidableEq

/-- The output rate, and how far the sweeps move down. -/
def make (u : SoundUnit) : Make :=
  { rate := u.rate
    extraDecrement1 := u.pulse1.sweep.extraDecrement
    extraDecrement2 := u.pulse2.sweep.extraDecrement }

theorem extraDecrement_pulseWrite (c : Pulse) (register : UInt16) (value : UInt8) :
    (c.write register value).sweep.extraDecrement = c.sweep.extraDecrement := by
  unfold Pulse.write
  split <;> rfl

theorem extraDecrement_clockTimer (c : Pulse) :
    c.clockTimer.sweep.extraDecrement = c.sweep.extraDecrement := by
  unfold Pulse.clockTimer
  split <;> rfl

theorem make_read (u : SoundUnit) (address : UInt16) : (u.read address).2.make = u.make := by
  unfold SoundUnit.read
  split <;> rfl

theorem make_clockFrame (u : SoundUnit) (event : FrameEvent) :
    (u.clockFrame event).make = u.make := by
  cases event with
  | nothing => rfl
  | quarter => rfl
  | half =>
      show Make.mk _ _ _ = Make.mk _ _ _
      simp only [Make.mk.injEq]
      exact ⟨rfl, Sweep.clock_extraDecrement _ _, Sweep.clock_extraDecrement _ _⟩

theorem make_write (u : SoundUnit) (address : UInt16) (value : UInt8) :
    (u.write address value).make = u.make := by
  unfold SoundUnit.write
  split
  · rfl
  split
  · simp only [make, extraDecrement_pulseWrite]
  split
  · simp only [make, extraDecrement_pulseWrite]
  split
  · rfl
  split
  · rfl
  split
  · rfl
  split
  · rfl
  split
  · obtain ⟨event, hwrite⟩ := u.exists_writeSequencer value
    rw [hwrite]
    exact make_clockFrame _ event
  · rfl

theorem make_clockTimers (u : SoundUnit) : u.clockTimers.make = u.make := by
  unfold SoundUnit.clockTimers
  split
  · simp only [make, extraDecrement_clockTimer]
  · rfl

theorem make_clockSequencer (u : SoundUnit) : u.clockSequencer.make = u.make := by
  obtain ⟨event, sequencer, hclock⟩ := u.exists_clockSequencer
  rw [hclock]
  exact make_clockFrame _ event

theorem make_collect (u : SoundUnit) : u.collect.make = u.make := by
  obtain ⟨resampler, samples, hcollect⟩ := u.collect_output
  rw [hcollect]
  rfl

theorem make_tick (u : SoundUnit) : u.tick.make = u.make := by
  unfold SoundUnit.tick
  rw [make_collect, make_clockSequencer, make_clockTimers]

theorem make_deliver (u : SoundUnit) (byte : UInt8) : (u.deliver byte).make = u.make := rfl

theorem make_restore (saved : SoundState) (u : SoundUnit) : (u.restore saved).make = u.make := rfl

/-- Where all widths are kept, a restore gives back what was saved, but for the
resampler and the samples. How far the sweeps move down is not saved. -/
theorem InRange.restore_save {u u' : SoundUnit} (h : u.InRange) (hmake : u'.make = u.make) :
    restore u.save u' = { u with resampler := u.resampler.restore u.rate, samples := #[] } := by
  simp only [make, Make.mk.injEq] at hmake
  obtain ⟨hrate, h1, h2⟩ := hmake
  have hpulse1 : u.save.pulse1.restore u'.pulse1 = u.pulse1 := h.pulse1.restored h1
  have hpulse2 : u.save.pulse2.restore u'.pulse2 = u.pulse2 := h.pulse2.restored h2
  have htriangle : u.save.triangle.restore = u.triangle := h.triangle.restored
  have hnoise : u.save.noise.restore = u.noise := h.noise.restored
  have hdelta : u.save.delta.restore = u.delta := h.delta.restored
  have hsequencer : u.save.sequencer.restore = u.sequencer := h.sequencer.restored
  simp only [restore, hpulse1, hpulse2, htriangle, hnoise, hdelta, hsequencer, hrate]
  rfl

end SoundUnit

end Famicom.Audio
