import Famicom.Audio.Envelope
import Famicom.Audio.LengthCounter

/-!
# The noise channel

The noise channel is a shift register of fifteen bits whose feedback makes a
pseudo-random sequence, or a short one that sounds like a tone.
-/

namespace Famicom.Audio

def noisePeriods : Vector UInt16 16 := #v[
  4, 8, 16, 32, 64, 96, 128, 160, 202, 254, 380, 508, 762, 1016, 2034, 4068
]

structure Noise where
  period : UInt16
  timer : UInt16
  /-- The shift register, never zero. -/
  bits : UInt16
  short : Bool
  envelope : Envelope
  length : LengthCounter
deriving DecidableEq, Repr

namespace Noise

def powerOn : Noise :=
  { period := 4, timer := 0, bits := 1, short := false, envelope := .silent, length := .off }

def write (register : UInt16) (value : UInt8) (c : Noise) : Noise :=
  match register &&& 0x03 with
  | 0 =>
    { c with
      length := c.length.setHalt (hasBits value 0x20)
      envelope := c.envelope.write value }
  | 1 => c
  | 2 =>
    have := Byte.mod_sixteen_lt value
    { c with short := hasBits value 0x80, period := noisePeriods[value.toNat % 16] }
  | _ =>
    { c with length := c.length.load (value >>> 3), envelope := c.envelope.restart }

/-- The next state of the shift register: its lowest bit and another one are
combined and come in at the top. -/
@[inline] def shift (short : Bool) (bits : UInt16) : UInt16 :=
  let other := if short then bits >>> 6 else bits >>> 1
  (bits >>> 1) ||| (((bits ^^^ other) &&& 1) <<< 14)

@[inline] def clockTimer (c : Noise) : Noise :=
  if c.timer == 0 then { c with timer := c.period, bits := shift c.short c.bits }
  else { c with timer := c.timer - 1 }

@[inline] def output (c : Noise) : UInt8 :=
  if !c.length.active || c.bits &&& 1 != 0 then 0 else c.envelope.output

/-- The shift register keeps its width and never becomes zero. -/
def restore (saved : Noise) : Noise :=
  let bits := saved.bits &&& 0x7FFF
  { saved with bits := if bits == 0 then 1 else bits, envelope := saved.envelope.restore }

end Noise

end Famicom.Audio
