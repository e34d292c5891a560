import Famicom.Proofs.Audio.InRange
import Famicom.Proofs.Checked

/-!
# The checked sound unit

A cycle, the registers and the delivery of sample bytes with every index and
every sum of the channels, the sequencer and the mixer checked: patterns, lengths
and periods, the steps of the sequence, and the tables of the two networks. The
widths of the registers are enough (`SoundUnit.checkedTick_eq`). Timers, length
counters and the bytes of a sample may hold anything, since they count down to
zero and no further.
-/

namespace Famicom.Audio

open Checked

/-! ## Envelopes -/

namespace Envelope

def checkedClock (e : Envelope) : Checked Envelope :=
  if e.start then return { e with start := false, decay := 15, divider := e.volume }
  else if e.divider == 0 then
    if e.decay > 0 then do
      let decay ← minus e.decay 1
      return { e with divider := e.volume, decay }
    else return { e with divider := e.volume, decay := if e.looping then 15 else 0 }
  else do
    let divider ← minus e.divider 1
    return { e with divider }

theorem checkedClock_eq (e : Envelope) : e.checkedClock = .ok e.clock := by
  unfold checkedClock clock
  by_cases hstart : e.start = true
  · rw [if_pos hstart, if_pos hstart]
    rfl
  rw [if_neg hstart, if_neg hstart]
  by_cases hdivider : (e.divider == 0) = true
  · rw [if_pos hdivider, if_pos hdivider]
    by_cases hdecay : e.decay > 0
    · rw [if_pos hdecay, if_pos hdecay, minus_byte (Byte.one_le (UInt8.ne_of_lt hdecay).symm)]
      rfl
    · rw [if_neg hdecay, if_neg hdecay]
      rfl
  · rw [if_neg hdivider, if_neg hdivider, minus_byte (Byte.one_le (by simpa using hdivider))]
    rfl

end Envelope

/-! ## Length counters -/

namespace LengthCounter

def checkedClock (l : LengthCounter) : Checked LengthCounter :=
  if !l.halt && l.counter > 0 then do
    let counter ← minus l.counter 1
    return { l with counter }
  else return l

def checkedLoad (number : UInt8) (l : LengthCounter) : Checked LengthCounter :=
  if l.enabled then do
    let counter ← lookup lengths (number &&& 0x1F).toNat
    return { l with counter }
  else return l

theorem checkedClock_eq (l : LengthCounter) : l.checkedClock = .ok l.clock := by
  unfold checkedClock clock
  by_cases hcounts : (!l.halt && decide (l.counter > 0)) = true
  · have hpos : l.counter > 0 := of_decide_eq_true (Bool.and_eq_true_iff.1 hcounts).2
    rw [if_pos hcounts, if_pos hcounts, minus_byte (Byte.one_le (UInt8.ne_of_lt hpos).symm)]
    rfl
  · rw [if_neg hcounts, if_neg hcounts]
    rfl

theorem checkedLoad_eq (number : UInt8) (l : LengthCounter) :
    l.checkedLoad number = .ok (l.load number) := by
  have hnumber : (number &&& 0x1F).toNat = number.toNat % 32 := Byte.toNat_and_low number 5 rfl
  have hlt : (number &&& 0x1F).toNat < 32 := hnumber ▸ Nat.mod_lt _ (by decide)
  unfold checkedLoad load
  split
  · rw [lookup_ok _ hlt, ok_bind]
    simp only [hnumber, pure_eq]
  · rfl

end LengthCounter

/-! ## Pulses -/

namespace Sweep

def checkedClock (current : UInt16) (s : Sweep) : Checked (UInt16 × Sweep) :=
  let period := if s.moves current then s.target current else current
  if s.divider == 0 || s.reload then
    return (period, { s with divider := s.period, reload := false })
  else do
    let divider ← minus s.divider 1
    return (period, { s with divider })

theorem checkedClock_eq (current : UInt16) (s : Sweep) :
    s.checkedClock current = .ok (s.clock current) := by
  unfold checkedClock clock
  by_cases hreload : (s.divider == 0 || s.reload) = true
  · simp only [if_pos hreload]
    rfl
  · have hdivider : s.divider ≠ 0 := by
      intro hzero
      exact hreload (by rw [hzero]; rfl)
    simp only [if_neg hreload, minus_byte (Byte.one_le hdivider)]
    rfl

end Sweep

namespace Pulse

/-- A write to one of the four registers of the channel. Only the last loads a
length. -/
def checkedWrite (register : UInt16) (value : UInt8) (c : Pulse) : Checked Pulse :=
  match register &&& 0x03 with
  | 3 => do
    let length ← c.length.checkedLoad (value >>> 3)
    return { c with
      period := setHigh value c.period
      length
      envelope := c.envelope.restart
      step := 0 }
  | _ => return c.write register value

def checkedClockTimer (c : Pulse) : Checked Pulse :=
  if c.timer == 0 then do
    let step ← plus c.step 1
    return { c with timer := c.period, step := step % 8 }
  else do
    let timer ← minus c.timer 1
    return { c with timer }

def checkedClockSweep (c : Pulse) : Checked Pulse := do
  let (period, sweep) ← c.sweep.checkedClock c.period
  return { c with period, sweep }

def checkedHigh (c : Pulse) : Checked Bool := do
  let pattern ← lookup duties c.duty.toNat
  let _ ← index c.step.toNat 8
  return (pattern >>> c.step) &&& 0x01 != 0

/-- The output. The pattern of a silent channel is not looked up. -/
def checkedOutput (c : Pulse) : Checked UInt8 :=
  if c.length.active then do
    let high ← c.checkedHigh
    return if high && c.period ≥ Sweep.shortest && c.period ≤ Sweep.longest then c.envelope.output
      else 0
  else return 0

theorem checkedWrite_eq (register : UInt16) (value : UInt8) (c : Pulse) :
    c.checkedWrite register value = .ok (c.write register value) := by
  unfold checkedWrite
  split
  · rename_i hregister
    rw [LengthCounter.checkedLoad_eq, write, hregister]
    rfl
  · rfl

theorem checkedClockTimer_eq {c : Pulse} (h : c.InRange) :
    c.checkedClockTimer = .ok c.clockTimer := by
  have hstep : c.step.toNat < 8 := UInt8.lt_iff_toNat_lt.1 h.step
  unfold checkedClockTimer clockTimer
  by_cases htimer : (c.timer == 0) = true
  · rw [if_pos htimer, if_pos htimer, plus_byte (by simp only [UInt8.reduceToNat]; omega)]
    rfl
  · rw [if_neg htimer, if_neg htimer, minus_word (Word.one_le (by simpa using htimer))]
    rfl

theorem checkedClockSweep_eq (c : Pulse) : c.checkedClockSweep = .ok c.clockSweep := by
  rw [checkedClockSweep, Sweep.checkedClock_eq]
  rfl

theorem checkedHigh_eq {c : Pulse} (h : c.InRange) : c.checkedHigh = .ok c.high := by
  have hduty : c.duty.toNat < 4 := UInt8.lt_iff_toNat_lt.1 h.duty
  have hstep : c.step.toNat < 8 := UInt8.lt_iff_toNat_lt.1 h.step
  rw [checkedHigh, lookup_ok _ hduty, index_ok hstep]
  simp only [ok_bind, pure_eq, high, Nat.mod_eq_of_lt hduty]

theorem checkedOutput_eq {c : Pulse} (h : c.InRange) : c.checkedOutput = .ok c.output := by
  unfold checkedOutput output
  by_cases hactive : c.length.active = true
  · rw [if_pos hactive, checkedHigh_eq h, hactive, Bool.true_and]
    rfl
  · rw [if_neg hactive, Bool.eq_false_iff.2 hactive]
    rfl

end Pulse

/-! ## The triangle -/

namespace Triangle

/-- A write to one of the four registers of the channel. Only the last loads a
length. -/
def checkedWrite (register : UInt16) (value : UInt8) (c : Triangle) : Checked Triangle :=
  match register &&& 0x03 with
  | 3 => do
    let length ← c.length.checkedLoad (value >>> 3)
    return { c with period := Pulse.setHigh value c.period, length, reload := true }
  | _ => return c.write register value

def checkedClockTimer (c : Triangle) : Checked Triangle :=
  if c.timer == 0 then
    if c.length.active && c.linear > 0 then do
      let step ← plus c.step 1
      return { c with timer := c.period, step := step % 32 }
    else return { c with timer := c.period }
  else do
    let timer ← minus c.timer 1
    return { c with timer }

def checkedClockLinear (c : Triangle) : Checked Triangle :=
  if c.reload then return { c with linear := c.linearReload, reload := c.reload && c.control }
  else if c.linear > 0 then do
    let linear ← minus c.linear 1
    return { c with linear, reload := c.reload && c.control }
  else return { c with reload := c.reload && c.control }

/-- The output. The level of a silent channel is not looked up. -/
def checkedOutput (c : Triangle) : Checked UInt8 :=
  if !c.length.active || c.linear == 0 || c.period < 2 then return 0
  else do
    let _ ← index c.step.toNat 32
    return level c.step

theorem checkedWrite_eq (register : UInt16) (value : UInt8) (c : Triangle) :
    c.checkedWrite register value = .ok (c.write register value) := by
  unfold checkedWrite
  split
  · rename_i hregister
    rw [LengthCounter.checkedLoad_eq, write, hregister]
    rfl
  · rfl

theorem checkedClockTimer_eq {c : Triangle} (h : c.InRange) :
    c.checkedClockTimer = .ok c.clockTimer := by
  have hstep : c.step.toNat < 32 := UInt8.lt_iff_toNat_lt.1 h.step
  unfold checkedClockTimer clockTimer
  by_cases htimer : (c.timer == 0) = true
  · rw [if_pos htimer, if_pos htimer, plus_byte (by simp only [UInt8.reduceToNat]; omega)]
    split <;> rfl
  · rw [if_neg htimer, if_neg htimer, minus_word (Word.one_le (by simpa using htimer))]
    rfl

theorem checkedClockLinear_eq (c : Triangle) : c.checkedClockLinear = .ok c.clockLinear := by
  unfold checkedClockLinear clockLinear
  by_cases hreload : c.reload = true
  · rw [if_pos hreload, if_pos hreload]
    rfl
  rw [if_neg hreload, if_neg hreload]
  by_cases hlinear : c.linear > 0
  · rw [if_pos hlinear, if_pos hlinear, minus_byte (Byte.one_le (UInt8.ne_of_lt hlinear).symm)]
    rfl
  · rw [if_neg hlinear, if_neg hlinear]
    rfl

theorem checkedOutput_eq {c : Triangle} (h : c.InRange) : c.checkedOutput = .ok c.output := by
  have hstep : c.step.toNat < 32 := UInt8.lt_iff_toNat_lt.1 h.step
  unfold checkedOutput output
  split
  · rfl
  · rw [index_ok hstep]
    rfl

end Triangle

/-! ## Noise -/

/-- Four bits choose an entry of sixteen. -/
theorem lookup_choice {α : Type} (table : Vector α 16) (value : UInt8) :
    lookup table (value &&& 0x0F).toNat =
      .ok (table.get ⟨value.toNat % 16, Byte.mod_sixteen_lt value⟩) := by
  have hvalue : (value &&& 0x0F).toNat = value.toNat % 16 := Byte.toNat_and_low value 4 rfl
  have hlt : (value &&& 0x0F).toNat < 16 := hvalue ▸ Byte.mod_sixteen_lt value
  rw [lookup_ok _ hlt]
  simp only [hvalue]
  rfl

namespace Noise

def checkedWrite (register : UInt16) (value : UInt8) (c : Noise) : Checked Noise :=
  match register &&& 0x03 with
  | 2 => do
    let period ← lookup noisePeriods (value &&& 0x0F).toNat
    return { c with short := hasBits value 0x80, period }
  | 3 => do
    let length ← c.length.checkedLoad (value >>> 3)
    return { c with length, envelope := c.envelope.restart }
  | _ => return c.write register value

def checkedClockTimer (c : Noise) : Checked Noise :=
  if c.timer == 0 then return { c with timer := c.period, bits := shift c.short c.bits }
  else do
    let timer ← minus c.timer 1
    return { c with timer }

theorem checkedWrite_eq (register : UInt16) (value : UInt8) (c : Noise) :
    c.checkedWrite register value = .ok (c.write register value) := by
  unfold checkedWrite
  split
  · rename_i hregister
    rw [lookup_choice, write, hregister]
    rfl
  · rename_i hregister
    rw [LengthCounter.checkedLoad_eq, write, hregister]
    rfl
  · rfl

/-- The timer counts down from any period. -/
theorem checkedClockTimer_eq (c : Noise) : c.checkedClockTimer = .ok c.clockTimer := by
  unfold checkedClockTimer clockTimer
  by_cases htimer : (c.timer == 0) = true
  · rw [if_pos htimer, if_pos htimer]
    rfl
  · rw [if_neg htimer, if_neg htimer, minus_word (Word.one_le (by simpa using htimer))]
    rfl

end Noise

/-! ## Delta samples -/

namespace Delta

def checkedWrite (register : UInt16) (value : UInt8) (c : Delta) : Checked Delta :=
  match register &&& 0x03 with
  | 0 => do
    let irqEnabled := hasBits value 0x80
    let period ← lookup deltaPeriods (value &&& 0x0F).toNat
    return { c with
      irqEnabled
      irqFlag := c.irqFlag && irqEnabled
      looping := hasBits value 0x40
      period }
  | _ => return c.write register value

def checkedMove (bit : Bool) (level : UInt8) : Checked UInt8 :=
  if bit then if level ≤ 125 then plus level 2 else return level
  else if level ≥ 2 then minus level 2 else return level

def checkedPlayBit (c : Delta) : Checked Delta :=
  if c.silent then return c
  else do
    let level ← checkedMove (c.shift &&& 1 != 0) c.level
    return { c with level, shift := c.shift >>> 1 }

def checkedClockOutput (c : Delta) : Checked Delta := do
  let c ← c.checkedPlayBit
  let bitsLeft ← minus c.bitsLeft 1
  let c := { c with bitsLeft }
  return if c.bitsLeft == 0 then c.takeBuffer else c

def checkedClockTimer (c : Delta) : Checked Delta :=
  if c.timer == 0 then { c with timer := c.period }.checkedClockOutput
  else do
    let timer ← minus c.timer 1
    return { c with timer }

def checkedNextAddress (address : UInt16) : Checked UInt16 :=
  if address == 0xFFFF then return 0x8000 else plus address 1

def checkedDeliver (byte : UInt8) (c : Delta) : Checked Delta :=
  let c := { c with wanted := false }
  if c.remaining == 0 then return c
  else do
    let address ← checkedNextAddress c.address
    let remaining ← minus c.remaining 1
    return { c with buffer := byte, bufferEmpty := false, address, remaining }.finishSample

theorem checkedWrite_eq (register : UInt16) (value : UInt8) (c : Delta) :
    c.checkedWrite register value = .ok (c.write register value) := by
  unfold checkedWrite
  split
  · rename_i hregister
    rw [lookup_choice, write, hregister]
    rfl
  · rfl

theorem checkedMove_eq (bit : Bool) (level : UInt8) :
    checkedMove bit level = .ok (move bit level) := by
  unfold checkedMove move
  split
  · split
    · rename_i hle
      have hle : level.toNat ≤ 125 := UInt8.le_iff_toNat_le.1 hle
      exact plus_byte (by simp only [UInt8.reduceToNat]; omega)
    · rfl
  · split
    · rename_i hle
      exact minus_byte hle
    · rfl

theorem checkedPlayBit_eq (c : Delta) : c.checkedPlayBit = .ok c.playBit := by
  unfold checkedPlayBit playBit
  split
  · rfl
  · rw [checkedMove_eq]
    rfl

theorem checkedClockOutput_eq {c : Delta} (h : c.InRange) :
    c.checkedClockOutput = .ok c.clockOutput := by
  have hpos : 1 ≤ c.playBit.bitsLeft := c.playBit_fields.1 ▸ h.bitsLeft_pos
  rw [checkedClockOutput, checkedPlayBit_eq, ok_bind, minus_byte hpos]
  rfl

theorem checkedClockTimer_eq {c : Delta} (h : c.InRange) :
    c.checkedClockTimer = .ok c.clockTimer := by
  unfold checkedClockTimer clockTimer
  by_cases htimer : (c.timer == 0) = true
  · rw [if_pos htimer, if_pos htimer]
    exact checkedClockOutput_eq
      ⟨h.level, h.bitsLeft_pos, h.bitsLeft_le, h.sampleAddress, h.address⟩
  · rw [if_neg htimer, if_neg htimer, minus_word (Word.one_le (by simpa using htimer))]
    rfl

theorem checkedNextAddress_eq (address : UInt16) :
    checkedNextAddress address = .ok (nextAddress address) := by
  unfold checkedNextAddress nextAddress
  by_cases hlast : (address == 0xFFFF) = true
  · rw [if_pos hlast, if_pos hlast]
    rfl
  · have hne : address.toNat ≠ 0xFFFF := by
      intro heq
      exact hlast (beq_iff_eq.2 (UInt16.toNat_inj.1 heq))
    have hlt := address.toNat_lt
    rw [if_neg hlast, if_neg hlast]
    exact plus_word (by simp only [UInt16.reduceToNat]; omega)

/-- There may be any number of bytes left. -/
theorem checkedDeliver_eq (byte : UInt8) (c : Delta) :
    c.checkedDeliver byte = .ok (c.deliver byte) := by
  unfold checkedDeliver deliver
  simp only []
  by_cases hnone : (c.remaining == 0) = true
  · rw [if_pos hnone, if_pos hnone]
    rfl
  · rw [if_neg hnone, if_neg hnone, checkedNextAddress_eq, ok_bind,
      minus_word (Word.one_le (by simpa using hnone))]
    rfl

end Delta

/-! ## The sequencer -/

namespace Sequencer

def checkedBoundary (s : Sequencer) : Checked UInt16 := do
  let step ← index s.step.toNat s.mode.steps.toNat
  lookup SequencerMode.boundaries step

/-- A cycle with a step, with the counter already moved on. -/
def checkedAdvance (counter : UInt16) (s : Sequencer) : Checked (FrameEvent × Sequencer) := do
  let next ← plus s.step 1
  let last := next == s.mode.steps
  return (s.mode.event s.step,
    { s with
      counter := if last then 0 else counter
      step := next % s.mode.steps
      irq := s.irq || (last && s.mode = .four && !s.inhibit) })

theorem toNat_step_lt {s : Sequencer} (h : s.InRange) : s.step.toNat < 5 := by
  have hstep := UInt8.lt_iff_toNat_lt.1 h.step
  cases hmode : s.mode with
  | four =>
      simp only [hmode, SequencerMode.steps, UInt8.reduceToNat] at hstep
      omega
  | five =>
      simp only [hmode, SequencerMode.steps, UInt8.reduceToNat] at hstep
      exact hstep

theorem checkedBoundary_eq {s : Sequencer} (h : s.InRange) :
    s.checkedBoundary = .ok (s.mode.boundary s.step) := by
  have hlt := toNat_step_lt h
  rw [checkedBoundary, index_ok (UInt8.lt_iff_toNat_lt.1 h.step), ok_bind, lookup_ok _ hlt]
  simp only [SequencerMode.boundary, SequencerMode.mod_steps h.step, Nat.mod_eq_of_lt hlt]

theorem checkedAdvance_eq {s : Sequencer} (h : s.InRange) :
    s.checkedAdvance (s.counter + 1) = .ok s.advance := by
  have hlt := toNat_step_lt h
  rw [checkedAdvance, plus_byte (by simp only [UInt8.reduceToNat]; omega)]
  rfl

/-- The boundaries are far from the end of a word, and the counter does not run
past them. -/
theorem plus_counter {s : Sequencer} (h : s.InRange) : plus s.counter 1 = .ok (s.counter + 1) := by
  have hle : s.counter.toNat ≤ 37281 :=
    UInt16.le_iff_toNat_le.1 (UInt16.le_trans h.counter (s.mode.boundary_le s.step))
  exact plus_word (by simp only [UInt16.reduceToNat]; omega)

end Sequencer

/-! ## The mixer -/

def checkedMix (pulse1 pulse2 triangle noise delta : UInt8) : Checked Float32 := do
  let pulses ← lookup pulseNetwork (pulse1.toNat + pulse2.toNat)
  let others ← lookup otherNetwork (3 * triangle.toNat + 2 * noise.toNat + delta.toNat)
  return pulses + others

/-- The tables of the networks end at the greatest sums of the levels. -/
theorem checkedMix_eq {pulse1 pulse2 triangle noise delta : UInt8} (hpulse1 : pulse1 < 16)
    (hpulse2 : pulse2 < 16) (htriangle : triangle < 16) (hnoise : noise < 16)
    (hdelta : delta < 128) :
    checkedMix pulse1 pulse2 triangle noise delta =
      .ok (mix pulse1 pulse2 triangle noise delta) := by
  rw [UInt8.lt_iff_toNat_lt] at hpulse1 hpulse2 htriangle hnoise hdelta
  simp only [UInt8.reduceToNat] at hpulse1 hpulse2 htriangle hnoise hdelta
  have hpulses : pulse1.toNat + pulse2.toNat < 31 := by omega
  have hothers : 3 * triangle.toNat + 2 * noise.toNat + delta.toNat < 203 := by omega
  rw [checkedMix, lookup_ok _ hpulses, lookup_ok _ hothers]
  simp only [ok_bind, pure_eq, mix, Nat.mod_eq_of_lt hpulses, Nat.mod_eq_of_lt hothers]

/-! ## The sound unit -/

namespace SoundUnit

/-! ### Registers -/

def checkedClockQuarter (u : SoundUnit) : Checked SoundUnit := do
  let envelope1 ← u.pulse1.envelope.checkedClock
  let envelope2 ← u.pulse2.envelope.checkedClock
  let envelope ← u.noise.envelope.checkedClock
  let triangle ← u.triangle.checkedClockLinear
  return { u with
    pulse1 := { u.pulse1 with envelope := envelope1 }
    pulse2 := { u.pulse2 with envelope := envelope2 }
    noise := { u.noise with envelope }
    triangle }

def checkedClockHalf (u : SoundUnit) : Checked SoundUnit := do
  let length1 ← u.pulse1.length.checkedClock
  let length2 ← u.pulse2.length.checkedClock
  let length3 ← u.triangle.length.checkedClock
  let length4 ← u.noise.length.checkedClock
  let pulse1 ← { u.pulse1 with length := length1 }.checkedClockSweep
  let pulse2 ← { u.pulse2 with length := length2 }.checkedClockSweep
  return { u with
    pulse1
    pulse2
    triangle := { u.triangle with length := length3 }
    noise := { u.noise with length := length4 } }

def checkedClockFrame (u : SoundUnit) : FrameEvent → Checked SoundUnit
  | .nothing => return u
  | .quarter => u.checkedClockQuarter
  | .half => do
    let u ← u.checkedClockQuarter
    u.checkedClockHalf

def checkedWriteSequencer (value : UInt8) (u : SoundUnit) : Checked SoundUnit :=
  let u := { u with sequencer := u.sequencer.write value }
  if u.sequencer.mode = .five then u.checkedClockFrame .half else return u

def checkedWrite (address : UInt16) (value : UInt8) (u : SoundUnit) : Checked SoundUnit :=
  if address < 0x4000 then return u
  else if address ≤ 0x4003 then return { u with pulse1 := ← u.pulse1.checkedWrite address value }
  else if address ≤ 0x4007 then return { u with pulse2 := ← u.pulse2.checkedWrite address value }
  else if address ≤ 0x400B then
    return { u with triangle := ← u.triangle.checkedWrite address value }
  else if address ≤ 0x400F then return { u with noise := ← u.noise.checkedWrite address value }
  else if address ≤ 0x4013 then return { u with delta := ← u.delta.checkedWrite address value }
  else if address == 0x4015 then return u.enable value
  else if address == 0x4017 then u.checkedWriteSequencer value
  else return u

theorem checkedClockQuarter_eq (u : SoundUnit) : u.checkedClockQuarter = .ok u.clockQuarter := by
  simp only [checkedClockQuarter, Envelope.checkedClock_eq, Triangle.checkedClockLinear_eq, ok_bind]
  rfl

theorem checkedClockHalf_eq (u : SoundUnit) : u.checkedClockHalf = .ok u.clockHalf := by
  simp only [checkedClockHalf, LengthCounter.checkedClock_eq, Pulse.checkedClockSweep_eq, ok_bind]
  rfl

theorem checkedClockFrame_eq (u : SoundUnit) (event : FrameEvent) :
    u.checkedClockFrame event = .ok (u.clockFrame event) := by
  cases event with
  | nothing => rfl
  | quarter => exact u.checkedClockQuarter_eq
  | half =>
      rw [checkedClockFrame, checkedClockQuarter_eq, ok_bind, checkedClockHalf_eq]
      rfl

theorem checkedWriteSequencer_eq (value : UInt8) (u : SoundUnit) :
    u.checkedWriteSequencer value = .ok (u.writeSequencer value) := by
  unfold checkedWriteSequencer writeSequencer
  simp only [checkedClockFrame_eq]
  split <;> rfl

/-- No write needs more than what the registers were left with. -/
theorem checkedWrite_eq (address : UInt16) (value : UInt8) (u : SoundUnit) :
    u.checkedWrite address value = .ok (u.write address value) := by
  simp only [checkedWrite, write, Pulse.checkedWrite_eq, Triangle.checkedWrite_eq,
    Noise.checkedWrite_eq, Delta.checkedWrite_eq, checkedWriteSequencer_eq, ok_bind, pure_eq]
  repeat' split
  all_goals rfl

/-! ### Cycles -/

def checkedClockTimers (u : SoundUnit) : Checked SoundUnit := do
  let triangle ← u.triangle.checkedClockTimer
  let delta ← u.delta.checkedClockTimer
  if u.oddCycle then
    let pulse1 ← u.pulse1.checkedClockTimer
    let pulse2 ← u.pulse2.checkedClockTimer
    let noise ← u.noise.checkedClockTimer
    return { u with triangle, pulse1, pulse2, noise, delta, oddCycle := false }
  else return { u with triangle, delta, oddCycle := true }

def checkedClockSequencer (u : SoundUnit) : Checked SoundUnit := do
  let counter ← plus u.sequencer.counter 1
  let boundary ← u.sequencer.checkedBoundary
  if counter ≥ boundary then
    let (event, sequencer) ← u.sequencer.checkedAdvance counter
    { u with sequencer }.checkedClockFrame event
  else return { u with sequencer := { u.sequencer with counter } }

def checkedOutput (u : SoundUnit) : Checked Float32 := do
  let pulse1 ← u.pulse1.checkedOutput
  let pulse2 ← u.pulse2.checkedOutput
  let triangle ← u.triangle.checkedOutput
  checkedMix pulse1 pulse2 triangle u.noise.output u.delta.level

def checkedCollect (u : SoundUnit) : Checked SoundUnit := do
  let output ← u.checkedOutput
  let u := { u with resampler := u.resampler.collect output }
  if u.resampler.complete u.rate then
    let (sample, resampler) := u.resampler.emit u.rate
    return { u with resampler, samples := u.samples.push sample }
  else return u

def checkedTick (u : SoundUnit) : Checked SoundUnit := do
  let u ← u.checkedClockTimers
  let u ← u.checkedClockSequencer
  u.checkedCollect

def checkedDeliver (byte : UInt8) (u : SoundUnit) : Checked SoundUnit := do
  let delta ← u.delta.checkedDeliver byte
  return { u with delta }

variable {u : SoundUnit}

theorem checkedClockTimers_eq (h : u.InRange) : u.checkedClockTimers = .ok u.clockTimers := by
  unfold checkedClockTimers clockTimers
  rw [Triangle.checkedClockTimer_eq h.triangle, Delta.checkedClockTimer_eq h.delta]
  simp only [ok_bind]
  split
  · rw [Pulse.checkedClockTimer_eq h.pulse1, Pulse.checkedClockTimer_eq h.pulse2,
      Noise.checkedClockTimer_eq]
    rfl
  · rfl

theorem checkedClockSequencer_eq (h : u.InRange) :
    u.checkedClockSequencer = .ok u.clockSequencer := by
  unfold checkedClockSequencer clockSequencer Sequencer.due
  rw [Sequencer.plus_counter h.sequencer, Sequencer.checkedBoundary_eq h.sequencer]
  simp only [ok_bind, Sequencer.checkedAdvance_eq h.sequencer, checkedClockFrame_eq,
    decide_eq_true_eq]
  split <;> rfl

theorem checkedOutput_eq (h : u.InRange) : u.checkedOutput = .ok u.output := by
  rw [checkedOutput, Pulse.checkedOutput_eq h.pulse1, Pulse.checkedOutput_eq h.pulse2,
    Triangle.checkedOutput_eq h.triangle]
  exact checkedMix_eq (Pulse.output_lt h.pulse1) (Pulse.output_lt h.pulse2)
    (Triangle.output_lt h.triangle) (Noise.output_lt h.noise) h.delta.level

theorem checkedCollect_eq (h : u.InRange) : u.checkedCollect = .ok u.collect := by
  unfold checkedCollect collect
  rw [checkedOutput_eq h]
  simp only [ok_bind]
  split <;> rfl

/-- Where the widths are kept, a cycle checks what it does in vain. -/
theorem checkedTick_eq (h : u.InRange) : u.checkedTick = .ok u.tick := by
  rw [checkedTick, checkedClockTimers_eq h, ok_bind, checkedClockSequencer_eq h.clockTimers,
    ok_bind, checkedCollect_eq h.clockTimers.clockSequencer]
  rfl

theorem checkedDeliver_eq (byte : UInt8) (u : SoundUnit) :
    u.checkedDeliver byte = .ok (u.deliver byte) := by
  rw [checkedDeliver, Delta.checkedDeliver_eq]
  rfl

end SoundUnit

end Famicom.Audio
