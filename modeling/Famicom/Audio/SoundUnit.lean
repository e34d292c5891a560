import Famicom.Audio.Delta
import Famicom.Audio.Mixer
import Famicom.Audio.Noise
import Famicom.Audio.Pulse
import Famicom.Audio.Resampler
import Famicom.Audio.Sequencer
import Famicom.Audio.Triangle
import Famicom.Reading

/-!
# The sound unit

Five channels, the frame sequencer and the resampler. The sound unit runs for
one cycle of the processor at a time. It cannot fetch samples itself: it says
which byte it wants, and somebody delivers it.
-/

namespace Famicom.Audio

structure SoundState where
  pulse1 : Pulse
  pulse2 : Pulse
  triangle : Triangle
  noise : Noise
  delta : Delta
  sequencer : Sequencer
  /-- The timers of pulses and noise are clocked in every other cycle. -/
  oddCycle : Bool
  resampler : Resampler

structure SoundUnit extends SoundState where
  rate : UInt32
  samples : Array Float32

namespace SoundUnit

/-- There is at least one sample in a second. -/
def powerOn (rate : UInt32) : SoundUnit :=
  let rate := max rate 1
  { pulse1 := .powerOn false, pulse2 := .powerOn true, triangle := .powerOn, noise := .powerOn
    delta := .powerOn, sequencer := .powerOn, oddCycle := false, resampler := .ofRate rate
    rate, samples := #[] }

/-! ## Registers -/

/-- The status register: which channels have something left to play, and the
requests of the sequencer and the delta channel. -/
def status (u : SoundUnit) : UInt8 :=
  (if u.pulse1.length.active then 0x01 else 0)
    ||| (if u.pulse2.length.active then 0x02 else 0)
    ||| (if u.triangle.length.active then 0x04 else 0)
    ||| (if u.noise.length.active then 0x08 else 0)
    ||| (if u.delta.active then 0x10 else 0)
    ||| (if u.sequencer.irq then 0x40 else 0)
    ||| (if u.delta.irqFlag then 0x80 else 0)

/-- Read the status register, which takes back the request of the sequencer. -/
def readStatus (u : SoundUnit) : UInt8 × SoundUnit :=
  (u.status, { u with sequencer := { u.sequencer with irq := false } })

/-- Only the status can be read. -/
def read (address : UInt16) (u : SoundUnit) : UInt8 × SoundUnit :=
  if address == 0x4015 then u.readStatus else (0, u)

def enable (value : UInt8) (u : SoundUnit) : SoundUnit :=
  { u with
    pulse1 := { u.pulse1 with length := u.pulse1.length.setEnabled (hasBits value 0x01) }
    pulse2 := { u.pulse2 with length := u.pulse2.length.setEnabled (hasBits value 0x02) }
    triangle := { u.triangle with length := u.triangle.length.setEnabled (hasBits value 0x04) }
    noise := { u.noise with length := u.noise.length.setEnabled (hasBits value 0x08) }
    delta := u.delta.setEnabled (hasBits value 0x10) }

def clockQuarter (u : SoundUnit) : SoundUnit :=
  { u with
    pulse1 := { u.pulse1 with envelope := u.pulse1.envelope.clock }
    pulse2 := { u.pulse2 with envelope := u.pulse2.envelope.clock }
    noise := { u.noise with envelope := u.noise.envelope.clock }
    triangle := u.triangle.clockLinear }

def clockHalf (u : SoundUnit) : SoundUnit :=
  { u with
    pulse1 := { u.pulse1 with length := u.pulse1.length.clock }.clockSweep
    pulse2 := { u.pulse2 with length := u.pulse2.length.clock }.clockSweep
    triangle := { u.triangle with length := u.triangle.length.clock }
    noise := { u.noise with length := u.noise.length.clock } }

def clockFrame (u : SoundUnit) : FrameEvent → SoundUnit
  | .nothing => u
  | .quarter => u.clockQuarter
  | .half => u.clockQuarter.clockHalf

/-- Choose the sequence. The longer one begins with a half frame at once. -/
def writeSequencer (value : UInt8) (u : SoundUnit) : SoundUnit :=
  let u := { u with sequencer := u.sequencer.write value }
  if u.sequencer.mode = .five then u.clockFrame .half else u

def write (address : UInt16) (value : UInt8) (u : SoundUnit) : SoundUnit :=
  if address < 0x4000 then u
  else if address ≤ 0x4003 then { u with pulse1 := u.pulse1.write address value }
  else if address ≤ 0x4007 then { u with pulse2 := u.pulse2.write address value }
  else if address ≤ 0x400B then { u with triangle := u.triangle.write address value }
  else if address ≤ 0x400F then { u with noise := u.noise.write address value }
  else if address ≤ 0x4013 then { u with delta := u.delta.write address value }
  else if address == 0x4015 then u.enable value
  else if address == 0x4017 then u.writeSequencer value
  else u

/-! ## Cycles -/

def output (u : SoundUnit) : Float32 :=
  mix u.pulse1.output u.pulse2.output u.triangle.output u.noise.output u.delta.level

@[inline] def clockTimers (u : SoundUnit) : SoundUnit :=
  if u.oddCycle then
    { u with
      triangle := u.triangle.clockTimer
      pulse1 := u.pulse1.clockTimer
      pulse2 := u.pulse2.clockTimer
      noise := u.noise.clockTimer
      delta := u.delta.clockTimer
      oddCycle := false }
  else
    { u with
      triangle := u.triangle.clockTimer
      delta := u.delta.clockTimer
      oddCycle := true }

@[inline] def clockSequencer (u : SoundUnit) : SoundUnit :=
  if u.sequencer.due then
    let (event, sequencer) := u.sequencer.advance
    { u with sequencer }.clockFrame event
  else { u with sequencer := u.sequencer.wait }

@[inline] def collect (u : SoundUnit) : SoundUnit :=
  let output := u.output
  let u := { u with resampler := u.resampler.collect output }
  if u.resampler.complete u.rate then
    let (sample, resampler) := u.resampler.emit u.rate
    { u with resampler, samples := u.samples.push sample }
  else u

/-- Run for one cycle of the processor. -/
def tick (u : SoundUnit) : SoundUnit := u.clockTimers.clockSequencer.collect

/-- The interrupt line, which the sequencer alone drives. -/
@[inline] def irq (u : SoundUnit) : Bool := u.sequencer.irq

@[inline] def request? (u : SoundUnit) : Option UInt16 := u.delta.request?

def deliver (byte : UInt8) (u : SoundUnit) : SoundUnit := { u with delta := u.delta.deliver byte }

def takeSamples (u : SoundUnit) : Array Float32 × SoundUnit :=
  (u.samples, { u with samples := #[] })

/-! ## Saved sound -/

/-- Save the registers and counters. Samples are not saved. -/
def save (u : SoundUnit) : SoundState := u.toSoundState

/-- Continue from saved registers, which keep their widths. Samples are
dropped. -/
def restore (saved : SoundState) (u : SoundUnit) : SoundUnit :=
  { pulse1 := saved.pulse1.restore u.pulse1
    pulse2 := saved.pulse2.restore u.pulse2
    triangle := saved.triangle.restore
    noise := saved.noise.restore
    delta := saved.delta.restore
    sequencer := saved.sequencer.restore
    oddCycle := saved.oddCycle
    resampler := saved.resampler.restore u.rate
    rate := u.rate
    samples := #[] }

def panel (u : SoundUnit) : Panel :=
  [("pulse1.period", .word u.pulse1.period), ("pulse1.length", .byte u.pulse1.length.counter),
   ("pulse1.envelope", .byte u.pulse1.envelope.output), ("pulse1.duty", .byte u.pulse1.duty),
   ("pulse2.period", .word u.pulse2.period), ("pulse2.length", .byte u.pulse2.length.counter),
   ("pulse2.envelope", .byte u.pulse2.envelope.output), ("pulse2.duty", .byte u.pulse2.duty),
   ("triangle.period", .word u.triangle.period),
   ("triangle.length", .byte u.triangle.length.counter),
   ("triangle.linear", .byte u.triangle.linear),
   ("noise.period", .word u.noise.period), ("noise.length", .byte u.noise.length.counter),
   ("noise.envelope", .byte u.noise.envelope.output),
   ("dmc.level", .byte u.delta.level), ("dmc.address", .word u.delta.address),
   ("dmc.remaining", .word u.delta.remaining),
   ("frame_counter.mode", .label (match u.sequencer.mode with
     | .four => "4-step"
     | .five => "5-step")),
   ("frame_counter.step", .byte u.sequencer.step), ("status", .byte u.status)]

end SoundUnit

end Famicom.Audio
