import Famicom.Word

/-!
# The frame sequencer

The sequencer divides the cycles of the processor into quarter frames and half
frames. It has four steps, the last of which requests an interrupt, or five
steps without a request.
-/

namespace Famicom.Audio

inductive SequencerMode where
  | four
  | five
deriving DecidableEq, Repr

inductive FrameEvent where
  | nothing
  /-- Envelopes and the linear counter. -/
  | quarter
  /-- These, and length counters and sweeps. -/
  | half
deriving DecidableEq, Repr

structure Sequencer where
  mode : SequencerMode
  counter : UInt16
  step : UInt8
  inhibit : Bool
  irq : Bool
deriving DecidableEq, Repr

namespace SequencerMode

@[inline] def steps : SequencerMode → UInt8
  | four => 4
  | five => 5

/-- The cycle of each step. -/
def boundaries : Vector UInt16 5 := #v[7457, 14913, 22371, 29829, 37281]

@[inline] def boundary (m : SequencerMode) (step : UInt8) : UInt16 :=
  let step := step % m.steps
  have : step.toNat % 5 < 5 := Nat.mod_lt _ (by decide)
  boundaries[step.toNat % 5]

/-- What a step clocks. The last step, and the second, are half frames; in the
longer sequence the last step but one does nothing. -/
def event (m : SequencerMode) (step : UInt8) : FrameEvent :=
  if step == 1 || step + 1 == m.steps then .half
  else if step == 3 then .nothing
  else .quarter

end SequencerMode

namespace Sequencer

def powerOn : Sequencer :=
  { mode := .four, counter := 0, step := 0, inhibit := false, irq := false }

/-- A write to the mode register: start over, and forget a request if there shall
be none. -/
def write (value : UInt8) (s : Sequencer) : Sequencer :=
  let inhibit := hasBits value 0x40
  { mode := if hasBits value 0x80 then .five else .four
    counter := 0, step := 0, inhibit, irq := s.irq && !inhibit }

@[inline] def due (s : Sequencer) : Bool := s.counter + 1 ≥ s.mode.boundary s.step

@[inline] def wait (s : Sequencer) : Sequencer := { s with counter := s.counter + 1 }

/-- A cycle with a step: what it clocks, and the sequencer afterwards. -/
def advance (s : Sequencer) : FrameEvent × Sequencer :=
  let last := s.step + 1 == s.mode.steps
  (s.mode.event s.step,
    { s with
      counter := if last then 0 else s.counter + 1
      step := (s.step + 1) % s.mode.steps
      irq := s.irq || (last && s.mode = .four && !s.inhibit) })

def restore (saved : Sequencer) : Sequencer :=
  let step := saved.step % saved.mode.steps
  { saved with step, counter := min saved.counter (saved.mode.boundary step) }

end Sequencer

end Famicom.Audio
