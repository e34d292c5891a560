import Famicom.Proofs.Audio.Samples

/-!
# What the enables decide

One register enables the channels, a bit for each. The channels have registers of
their own, which load length counters and describe samples, the sequencer clocks
counters, and bytes of a sample may come late. None of this revives a channel that is
disabled:

* **length counters** — between two writes to the enables a counter is clocked,
  loaded and halted, and stays empty in all of this if it is disabled
  (`LengthCounter.Obeys.follows`, `Voice.length_after`);
* **samples** — only the enables start a sample, so that a stopped delta channel has
  no bytes left (`Delta.remaining_access`, `Delta.remaining_deliver`);
* **histories** — the unit obeys the last byte that was written to the enables
  (`Obeys.afterAll`), and that can be heard and read (`status_follows_enables`).
-/

namespace Famicom.Audio

/-! ## Length counters -/

namespace LengthCounter

/-- What happens to a length counter while the enables stay as they are. -/
inductive Follows (l : LengthCounter) : LengthCounter → Prop
  | same : Follows l l
  | clock : Follows l l.clock
  | load (number : UInt8) : Follows l (l.load number)
  | setHalt (halt : Bool) : Follows l (l.setHalt halt)

/-- The counter obeys its bit of the enables: it knows it, and is empty if it is
clear. -/
structure Obeys (bit : Bool) (l : LengthCounter) : Prop where
  enabled : l.enabled = bit
  silent : bit = false → l.counter = 0

variable {bit : Bool} {l l' : LengthCounter}

theorem obeys_off : off.Obeys false := ⟨rfl, fun _ => rfl⟩

theorem obeys_setEnabled (bit : Bool) (l : LengthCounter) : (l.setEnabled bit).Obeys bit := by
  refine ⟨rfl, ?_⟩
  rintro rfl
  rfl

/-- An empty counter is not counted down, and a disabled one is not loaded. -/
theorem Obeys.follows (h : l.Obeys bit) (hnext : l.Follows l') : l'.Obeys bit := by
  cases hnext with
  | same => exact h
  | clock =>
      unfold LengthCounter.clock
      split
      · rename_i hcounts
        refine ⟨h.enabled, fun hbit => ?_⟩
        rw [h.silent hbit, Bool.and_eq_true] at hcounts
        exact absurd hcounts.2 (by decide)
      · exact h
  | load number =>
      unfold LengthCounter.load
      split
      · rename_i henabled
        exact ⟨h.enabled, fun hbit =>
          absurd (henabled.symm.trans (h.enabled.trans hbit)) (by decide)⟩
      · exact h
  | setHalt halt => exact ⟨h.enabled, h.silent⟩

end LengthCounter

/-! ## The channels with a length counter -/

/-- A channel with a length counter. -/
inductive Voice where
  | pulse1
  | pulse2
  | triangle
  | noise
deriving DecidableEq, Repr

namespace Voice

/-- The bit of the channel, in the enables and in the status. -/
def bit : Voice → UInt8
  | pulse1 => 0x01
  | pulse2 => 0x02
  | triangle => 0x04
  | noise => 0x08

/-- The length counter of the channel. -/
def length (u : SoundUnit) : Voice → LengthCounter
  | pulse1 => u.pulse1.length
  | pulse2 => u.pulse2.length
  | triangle => u.triangle.length
  | noise => u.noise.length

/-- The level that the channel puts out. -/
def output (u : SoundUnit) : Voice → UInt8
  | pulse1 => u.pulse1.output
  | pulse2 => u.pulse2.output
  | triangle => u.triangle.output
  | noise => u.noise.output

/-- A channel whose counter is empty is silent. -/
theorem output_silent {u : SoundUnit} {v : Voice} (h : (v.length u).counter = 0) :
    v.output u = 0 := by
  have hinactive : (v.length u).active = false := by
    unfold LengthCounter.active
    rw [h]
    rfl
  have hpulse {c : Pulse} (hc : c.length.active = false) : c.output = 0 := by
    unfold Pulse.output
    simp only [hc, Bool.false_and, Bool.false_eq_true, if_false]
  cases v with
  | pulse1 => exact hpulse hinactive
  | pulse2 => exact hpulse hinactive
  | triangle =>
      have hinactive : u.triangle.length.active = false := hinactive
      show u.triangle.output = 0
      unfold Triangle.output
      simp only [hinactive, Bool.not_false, Bool.true_or, if_true]
  | noise =>
      have hinactive : u.noise.length.active = false := hinactive
      show u.noise.output = 0
      unfold Noise.output
      simp only [hinactive, Bool.not_false, Bool.true_or, if_true]

end Voice

namespace SoundUnit

theorem hasBits_flags : ∀ pulse1 pulse2 triangle noise delta irq irqFlag : Bool,
    let flags : UInt8 := (if pulse1 then 0x01 else 0) ||| (if pulse2 then 0x02 else 0)
      ||| (if triangle then 0x04 else 0) ||| (if noise then 0x08 else 0)
      ||| (if delta then 0x10 else 0) ||| (if irq then 0x40 else 0)
      ||| (if irqFlag then 0x80 else 0)
    hasBits flags 0x01 = pulse1 ∧ hasBits flags 0x02 = pulse2 ∧ hasBits flags 0x04 = triangle ∧
      hasBits flags 0x08 = noise ∧ hasBits flags 0x10 = delta := by
  decide

/-- The status shows which counters are not empty. -/
theorem hasBits_status (u : SoundUnit) (v : Voice) :
    hasBits u.status v.bit = (v.length u).active := by
  obtain ⟨hpulse1, hpulse2, htriangle, hnoise, -⟩ := hasBits_flags u.pulse1.length.active
    u.pulse2.length.active u.triangle.length.active u.noise.length.active u.delta.active
    u.sequencer.irq u.delta.irqFlag
  cases v with
  | pulse1 => exact hpulse1
  | pulse2 => exact hpulse2
  | triangle => exact htriangle
  | noise => exact hnoise

theorem hasBits_status_delta (u : SoundUnit) : hasBits u.status 0x10 = u.delta.active := by
  obtain ⟨-, -, -, -, hdelta⟩ := hasBits_flags u.pulse1.length.active
    u.pulse2.length.active u.triangle.length.active u.noise.length.active u.delta.active
    u.sequencer.irq u.delta.irqFlag
  exact hdelta

end SoundUnit

/-! ## Events -/

/-- What happens to a sound unit. -/
inductive SoundEvent where
  | read (address : UInt16)
  | write (address : UInt16) (value : UInt8)
  | cycle
  /-- A byte of a sample comes, whether it is wanted or not. -/
  | deliver (byte : UInt8)

/-- The byte in the enables behind an event. -/
def SoundEvent.enables (before : UInt8) : SoundEvent → UInt8
  | .write address value => if address = 0x4015 then value else before
  | _ => before

/-- The byte that a history wrote last to the enables, or zero. -/
def enablesAfter (events : List SoundEvent) : UInt8 := events.foldl SoundEvent.enables 0

namespace SoundUnit

/-- The sound unit behind an event. -/
def after (u : SoundUnit) : SoundEvent → SoundUnit
  | .read address => (u.read address).2
  | .write address value => u.write address value
  | .cycle => u.tick
  | .deliver byte => u.deliver byte

/-- The sound unit behind a history. -/
def afterAll (u : SoundUnit) (events : List SoundEvent) : SoundUnit := events.foldl after u

end SoundUnit

namespace Voice

variable (v : Voice) (u : SoundUnit)

/-- Envelopes and the linear counter leave the length alone, and so do the sweeps. -/
theorem length_clockFrame (event : FrameEvent) :
    (v.length u).Follows (v.length (u.clockFrame event)) := by
  cases event with
  | nothing => exact .same
  | quarter => cases v <;> exact .same
  | half => cases v <;> exact .clock

theorem length_clockTimers : v.length u.clockTimers = v.length u := by
  have hpulse (c : Pulse) : c.clockTimer.length = c.length := by
    unfold Pulse.clockTimer
    split <;> rfl
  have htriangle (c : Triangle) : c.clockTimer.length = c.length := by
    unfold Triangle.clockTimer
    split <;> rfl
  have hnoise (c : Noise) : c.clockTimer.length = c.length := by
    unfold Noise.clockTimer
    split <;> rfl
  unfold SoundUnit.clockTimers
  cases v with
  | pulse1 => split <;> simp only [length, hpulse]
  | pulse2 => split <;> simp only [length, hpulse]
  | triangle => split <;> exact htriangle _
  | noise => split <;> simp only [length, hnoise]

theorem length_collect : v.length u.collect = v.length u := by
  obtain ⟨resampler, samples, hcollect⟩ := u.collect_output
  rw [hcollect]
  cases v <;> rfl

theorem length_sequencer (sequencer : Sequencer) :
    v.length { u with sequencer } = v.length u := by
  cases v <;> rfl

theorem length_tick : (v.length u).Follows (v.length u.tick) := by
  unfold SoundUnit.tick
  rw [length_collect, ← length_clockTimers v u]
  obtain ⟨event, sequencer, hclock⟩ := u.clockTimers.exists_clockSequencer
  rw [hclock, ← length_sequencer v u.clockTimers sequencer]
  exact length_clockFrame v _ event

theorem length_writeSequencer (value : UInt8) :
    (v.length u).Follows (v.length (u.writeSequencer value)) := by
  obtain ⟨event, hwrite⟩ := u.exists_writeSequencer value
  rw [hwrite, ← length_sequencer v u (u.sequencer.write value)]
  exact length_clockFrame v _ event

theorem follows_pulse (c : Pulse) (register : UInt16) (value : UInt8) :
    c.length.Follows (c.write register value).length := by
  unfold Pulse.write
  split
  · exact .setHalt _
  · exact .same
  · exact .same
  · exact .load _

theorem follows_triangle (c : Triangle) (register : UInt16) (value : UInt8) :
    c.length.Follows (c.write register value).length := by
  unfold Triangle.write
  split
  · exact .setHalt _
  · exact .same
  · exact .same
  · exact .load _

theorem follows_noise (c : Noise) (register : UInt16) (value : UInt8) :
    c.length.Follows (c.write register value).length := by
  unfold Noise.write
  split
  · exact .setHalt _
  · exact .same
  · exact .same
  · exact .load _

theorem length_write {address : UInt16} (value : UInt8) (h : address ≠ 0x4015) :
    (v.length u).Follows (v.length (u.write address value)) := by
  unfold SoundUnit.write
  split
  · exact .same
  split
  · cases v with
    | pulse1 => exact follows_pulse _ _ _
    | _ => exact .same
  split
  · cases v with
    | pulse2 => exact follows_pulse _ _ _
    | _ => exact .same
  split
  · cases v with
    | triangle => exact follows_triangle _ _ _
    | _ => exact .same
  split
  · cases v with
    | noise => exact follows_noise _ _ _
    | _ => exact .same
  split
  · cases v <;> exact .same
  split
  · rename_i henables
    exact absurd (beq_iff_eq.1 henables) h
  split
  · exact length_writeSequencer v u value
  · exact .same

/-- Between two writes to the enables. -/
theorem length_after (event : SoundEvent) (h : ∀ value, event ≠ .write 0x4015 value) :
    (v.length u).Follows (v.length (u.after event)) := by
  cases event with
  | read address =>
      show (v.length u).Follows (v.length (u.read address).2)
      unfold SoundUnit.read
      split
      · rw [SoundUnit.readStatus, length_sequencer]
        exact .same
      · exact .same
  | write address value =>
      refine length_write v u value ?_
      rintro rfl
      exact h value rfl
  | cycle => exact length_tick v u
  | deliver byte => cases v <;> exact .same

end Voice

/-! ## The delta channel -/

namespace Delta

/-- The timer of the delta channel fetches nothing. -/
theorem remaining_clockTimer (c : Delta) : c.clockTimer.remaining = c.remaining := by
  have hplay (d : Delta) : d.playBit.remaining = d.remaining := by
    unfold playBit
    split <;> rfl
  have htake (d : Delta) : d.takeBuffer.remaining = d.remaining := by
    unfold takeBuffer
    simp only []
    split <;> rfl
  unfold clockTimer clockOutput
  split
  · simp only []
    split
    · rw [htake]
      exact hplay _
    · exact hplay _
  · rfl

/-- Of all registers only the enables start a sample. -/
theorem remaining_access (c : Delta) {address : UInt16} (value : UInt8) (h : address ≠ 0x4015) :
    (c.access address value).remaining = c.remaining := by
  unfold access
  rw [if_neg h]
  split
  · unfold Delta.write
    split <;> rfl
  · rfl

/-- A byte that comes too late is dropped. -/
theorem remaining_deliver {c : Delta} (byte : UInt8) (h : c.remaining = 0) :
    (c.deliver byte).remaining = 0 := by
  unfold Delta.deliver
  simp only [h, beq_self_eq_true, if_true]

end Delta

namespace SoundUnit

/-- A cycle fetches nothing by itself. -/
theorem remaining_tick (u : SoundUnit) : u.tick.delta.remaining = u.delta.remaining := by
  rw [delta_tick, Delta.remaining_clockTimer]

/-- A channel without a sample wants no byte. -/
theorem request_stopped {u : SoundUnit} (h : u.delta.remaining = 0) : u.request? = none := by
  unfold request? Delta.request?
  rw [h]
  simp

theorem delta_read (u : SoundUnit) (address : UInt16) : (u.read address).2.delta = u.delta := by
  unfold SoundUnit.read
  split <;> rfl

/-- Between two writes to the enables no sample is started. -/
theorem remaining_after {u : SoundUnit} (event : SoundEvent)
    (h : ∀ value, event ≠ .write 0x4015 value) (hstopped : u.delta.remaining = 0) :
    (u.after event).delta.remaining = 0 := by
  cases event with
  | read address =>
      show (u.read address).2.delta.remaining = 0
      rw [delta_read, hstopped]
  | write address value =>
      have hother : address ≠ 0x4015 := by
        rintro rfl
        exact h value rfl
      show (u.write address value).delta.remaining = 0
      rw [delta_write, Delta.remaining_access _ _ hother, hstopped]
  | cycle =>
      show u.tick.delta.remaining = 0
      rw [remaining_tick, hstopped]
  | deliver byte => exact Delta.remaining_deliver byte hstopped

end SoundUnit

/-! ## Histories -/

namespace SoundUnit

/-- The unit obeys the enables: each counter obeys its bit, and no sample is played if
the bit of the delta channel is clear. -/
structure Obeys (enables : UInt8) (u : SoundUnit) : Prop where
  voice : ∀ v : Voice, (v.length u).Obeys (hasBits enables v.bit)
  delta : hasBits enables 0x10 = false → u.delta.remaining = 0

theorem obeys_powerOn (rate : UInt32) : (powerOn rate).Obeys 0 := by
  refine ⟨fun v => ?_, fun _ => rfl⟩
  cases v <;> exact LengthCounter.obeys_off

theorem obeys_enable (value : UInt8) (u : SoundUnit) : (u.enable value).Obeys value := by
  refine ⟨fun v => ?_, fun hclear => ?_⟩
  · cases v <;> exact LengthCounter.obeys_setEnabled _ _
  · show (u.delta.setEnabled (hasBits value 0x10)).remaining = 0
    rw [hclear]
    rfl

variable {enables : UInt8} {u : SoundUnit}

theorem Obeys.after (h : u.Obeys enables) (event : SoundEvent) :
    (u.after event).Obeys (event.enables enables) := by
  by_cases htold : ∃ value, event = .write 0x4015 value
  · obtain ⟨value, rfl⟩ := htold
    exact obeys_enable value u
  · have hother (value : UInt8) : event ≠ .write 0x4015 value := fun heq => htold ⟨value, heq⟩
    have hkept : event.enables enables = enables := by
      cases event with
      | write address value => exact if_neg (by rintro rfl; exact hother value rfl)
      | _ => rfl
    rw [hkept]
    exact ⟨fun v => (h.voice v).follows (v.length_after u event hother),
      fun hclear => remaining_after event hother (h.delta hclear)⟩

theorem Obeys.afterAll (h : u.Obeys enables) (events : List SoundEvent) :
    (u.afterAll events).Obeys (events.foldl SoundEvent.enables enables) := by
  induction events generalizing u enables with
  | nil => exact h
  | cons event rest ih => exact ih (h.after event)

/-- **A disabled channel stays silent.** Take any history of a sound unit: reads and
writes of registers, cycles, and bytes of samples, in any order. If the bit of a
channel was clear in the last byte that was written to the enables, or if none was
written, then the channel has an empty length counter, its bit in the status is clear,
and it puts out nothing. The delta channel has no bytes left to fetch, its bit in the
status is clear, and it wants no byte. -/
theorem status_follows_enables (rate : UInt32) (events : List SoundEvent) :
    let u := (powerOn rate).afterAll events
    (∀ v : Voice, hasBits (enablesAfter events) v.bit = false →
      (v.length u).counter = 0 ∧ hasBits (u.read 0x4015).1 v.bit = false ∧ v.output u = 0) ∧
    (hasBits (enablesAfter events) 0x10 = false →
      u.delta.remaining = 0 ∧ hasBits (u.read 0x4015).1 0x10 = false ∧ u.request? = none) := by
  intro u
  have hobeys : u.Obeys (enablesAfter events) := (obeys_powerOn rate).afterAll events
  have hread : (u.read 0x4015).1 = u.status := rfl
  refine ⟨fun v hclear => ?_, fun hclear => ?_⟩
  · have hempty := (hobeys.voice v).silent hclear
    refine ⟨hempty, ?_, Voice.output_silent hempty⟩
    rw [hread, hasBits_status, LengthCounter.active, hempty]
    rfl
  · have hstopped := hobeys.delta hclear
    refine ⟨hstopped, ?_, request_stopped hstopped⟩
    rw [hread, hasBits_status_delta, Delta.active, hstopped]
    rfl

/-- All channels are enabled and loaded, the first pulse and the delta channel are
disabled while a byte is under way, and everything is tried to revive them. -/
theorem status_follows_enables_revived :
    let events : List SoundEvent :=
      [.write 0x4015 0x1F, .write 0x4003 0xF8, .write 0x4007 0xF8, .write 0x4010 0x4F, .cycle,
       .write 0x4015 0x0E, .deliver 0xFF, .write 0x4003 0xF8, .write 0x4013 0xFF, .read 0x4015,
       .write 0x4017 0x80, .cycle]
    let u := (powerOn 48000).afterAll events
    (hasBits (enablesAfter events) Voice.pulse1.bit = false ∧
      hasBits (enablesAfter events) 0x10 = false) ∧
    ((Voice.pulse1.length u).counter = 0 ∧ hasBits (u.read 0x4015).1 Voice.pulse1.bit = false ∧
      Voice.pulse1.output u = 0) ∧
    (u.delta.remaining = 0 ∧ hasBits (u.read 0x4015).1 0x10 = false ∧ u.request? = none) := by
  intro events
  have hpulse : hasBits (enablesAfter events) Voice.pulse1.bit = false := by decide
  have hdelta : hasBits (enablesAfter events) 0x10 = false := by decide
  obtain ⟨hvoices, hsample⟩ := status_follows_enables 48000 events
  exact ⟨⟨hpulse, hdelta⟩, hvoices .pulse1 hpulse, hsample hdelta⟩

end SoundUnit

end Famicom.Audio
