import Famicom.Audio.Pulse

/-!
# The triangle channel

The triangle channel steps through 32 levels, down and up again, as long as both
its length counter and its linear counter have something left. When one of them
has run out it stays where it is.
-/

namespace Famicom.Audio

structure Triangle where
  period : UInt16
  timer : UInt16
  step : UInt8
  length : LengthCounter
  linear : UInt8
  linearReload : UInt8
  reload : Bool
  /-- Keep the reload flag; also halts the length counter. -/
  control : Bool
deriving DecidableEq, Repr

namespace Triangle

def powerOn : Triangle :=
  { period := 0, timer := 0, step := 0, length := .off, linear := 0, linearReload := 0
    reload := false, control := false }

def write (register : UInt16) (value : UInt8) (c : Triangle) : Triangle :=
  match register &&& 0x03 with
  | 0 =>
    let control := hasBits value 0x80
    { c with control, length := c.length.setHalt control, linearReload := value &&& 0x7F }
  | 1 => c
  | 2 => { c with period := Pulse.setLow value c.period }
  | _ =>
    { c with
      period := Pulse.setHigh value c.period
      length := c.length.load (value >>> 3)
      reload := true }

@[inline] def clockTimer (c : Triangle) : Triangle :=
  if c.timer == 0 then
    let step := if c.length.active && c.linear > 0 then (c.step + 1) % 32 else c.step
    { c with timer := c.period, step }
  else { c with timer := c.timer - 1 }

def clockLinear (c : Triangle) : Triangle :=
  let linear :=
    if c.reload then c.linearReload else if c.linear > 0 then c.linear - 1 else c.linear
  { c with linear, reload := c.reload && c.control }

/-- The level of a step: from 15 down to 0 and up again. -/
@[inline] def level (step : UInt8) : UInt8 := if step < 16 then 15 - step else step - 16

/-- The output, from 0 to 15. Periods too short to be heard are silent. -/
@[inline] def output (c : Triangle) : UInt8 :=
  if !c.length.active || c.linear == 0 || c.period < 2 then 0 else level c.step

def restore (saved : Triangle) : Triangle :=
  { saved with
    period := saved.period &&& 0x07FF
    timer := saved.timer &&& 0x07FF
    step := saved.step &&& 0x1F
    linear := saved.linear &&& 0x7F
    linearReload := saved.linearReload &&& 0x7F }

end Triangle

end Famicom.Audio
