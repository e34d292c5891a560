import Famicom.Audio.Envelope
import Famicom.Audio.LengthCounter
import Famicom.Audio.Sweep

/-!
# Pulse channels

A pulse channel steps through one of four patterns of eight levels. The period
of its timer is the time of a step.
-/

namespace Famicom.Audio

/-- The four patterns, one bit for a step, the first step lowest. -/
def duties : Vector UInt8 4 := #v[0x02, 0x06, 0x1E, 0xF9]

structure Pulse where
  /-- The period of the timer, eleven bits. -/
  period : UInt16
  timer : UInt16
  step : UInt8
  duty : UInt8
  envelope : Envelope
  length : LengthCounter
  sweep : Sweep
deriving DecidableEq, Repr

namespace Pulse

def powerOn (extraDecrement : Bool) : Pulse :=
  { period := 0, timer := 0, step := 0, duty := 0
    envelope := .silent, length := .off, sweep := .idle extraDecrement }

def setLow (value : UInt8) (period : UInt16) : UInt16 :=
  (period &&& (0x0700 : UInt16)) ||| value.toUInt16

/-- The period with its three high bits replaced. -/
def setHigh (value : UInt8) (period : UInt16) : UInt16 :=
  (period &&& (0x00FF : UInt16)) ||| ((value &&& 0x07).toUInt16 <<< 8)

def write (register : UInt16) (value : UInt8) (c : Pulse) : Pulse :=
  match register &&& 0x03 with
  | 0 =>
    { c with
      duty := (value >>> 6) &&& 0x03
      length := c.length.setHalt (hasBits value 0x20)
      envelope := c.envelope.write value }
  | 1 => { c with sweep := c.sweep.write value }
  | 2 => { c with period := setLow value c.period }
  | _ =>
    { c with
      period := setHigh value c.period
      length := c.length.load (value >>> 3)
      envelope := c.envelope.restart
      step := 0 }

@[inline] def clockTimer (c : Pulse) : Pulse :=
  if c.timer == 0 then { c with timer := c.period, step := (c.step + 1) % 8 }
  else { c with timer := c.timer - 1 }

def clockSweep (c : Pulse) : Pulse :=
  let (period, sweep) := c.sweep.clock c.period
  { c with period, sweep }

@[inline] def high (c : Pulse) : Bool :=
  have : c.duty.toNat % 4 < 4 := Nat.mod_lt _ (by decide)
  (duties[c.duty.toNat % 4] >>> c.step) &&& 0x01 != 0

@[inline] def output (c : Pulse) : UInt8 :=
  if c.length.active && c.high && c.period ≥ Sweep.shortest && c.period ≤ Sweep.longest then
    c.envelope.output
  else 0

def restore (saved c : Pulse) : Pulse :=
  { saved with
    period := saved.period &&& 0x07FF
    timer := saved.timer &&& 0x07FF
    step := saved.step &&& 0x07
    duty := saved.duty &&& 0x03
    envelope := saved.envelope.restore
    sweep := saved.sweep.restore c.sweep }

end Pulse

end Famicom.Audio
