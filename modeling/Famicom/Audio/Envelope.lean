import Famicom.Word

/-!
# Envelopes

An envelope gives the volume of a channel. It is constant, or decays from 15 to 0
in steps whose length the volume register sets; at the bottom it stays or starts
over.
-/

namespace Famicom.Audio

structure Envelope where
  start : Bool
  divider : UInt8
  decay : UInt8
  /-- The constant volume, or the length of a step less one. -/
  volume : UInt8
  constant : Bool
  looping : Bool
deriving DecidableEq, Repr

namespace Envelope

def silent : Envelope :=
  { start := false, divider := 0, decay := 0, volume := 0, constant := false, looping := false }

def write (value : UInt8) (e : Envelope) : Envelope :=
  { e with
    looping := hasBits value 0x20
    constant := hasBits value 0x10
    volume := value &&& 0x0F }

def restart (e : Envelope) : Envelope := { e with start := true }

def clock (e : Envelope) : Envelope :=
  if e.start then { e with start := false, decay := 15, divider := e.volume }
  else if e.divider == 0 then
    let decay := if e.decay > 0 then e.decay - 1 else if e.looping then 15 else 0
    { e with divider := e.volume, decay }
  else { e with divider := e.divider - 1 }

@[inline] def output (e : Envelope) : UInt8 := if e.constant then e.volume else e.decay

def restore (saved : Envelope) : Envelope :=
  { saved with
    divider := saved.divider &&& 0x0F
    decay := saved.decay &&& 0x0F
    volume := saved.volume &&& 0x0F }

end Envelope

end Famicom.Audio
