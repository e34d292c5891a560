import Famicom.Word

/-!
# Sweeps

A sweep moves the period of a pulse channel by a fraction of itself, up or down,
at regular half frames. It leaves periods alone that are too short, or that
would leave the eleven bits of the period register.
-/

namespace Famicom.Audio

structure Sweep where
  enabled : Bool
  negate : Bool
  shift : UInt8
  /-- Half frames between two moves, less one. -/
  period : UInt8
  divider : UInt8
  reload : Bool
  /-- Move down by one more. The first pulse channel does not, the second does. -/
  extraDecrement : Bool
deriving DecidableEq, Repr

namespace Sweep

def longest : UInt16 := 0x7FF
/-- The shortest period that sounds. -/
def shortest : UInt16 := 8

def idle (extraDecrement : Bool) : Sweep :=
  { enabled := false, negate := false, shift := 0, period := 0, divider := 0, reload := false
    extraDecrement }

def write (value : UInt8) (s : Sweep) : Sweep :=
  { s with
    enabled := hasBits value 0x80
    period := (value >>> 4) &&& 0x07
    negate := hasBits value 0x08
    shift := value &&& 0x07
    reload := true }

def target (current : UInt16) (s : Sweep) : UInt16 :=
  let delta := current >>> s.shift.toUInt16
  if !s.negate then current + delta
  else if s.extraDecrement then current - delta - 1
  else current - delta

def moves (current : UInt16) (s : Sweep) : Bool :=
  s.divider == 0 && s.enabled && s.shift > 0 && current ≥ shortest && s.target current ≤ longest

def clock (current : UInt16) (s : Sweep) : UInt16 × Sweep :=
  let period := if s.moves current then s.target current else current
  if s.divider == 0 || s.reload then (period, { s with divider := s.period, reload := false })
  else (period, { s with divider := s.divider - 1 })

/-- How far a sweep moves down stays with the channel. -/
def restore (saved s : Sweep) : Sweep :=
  { saved with
    shift := saved.shift &&& 0x07
    period := saved.period &&& 0x07
    divider := saved.divider &&& 0x07
    extraDecrement := s.extraDecrement }

end Sweep

end Famicom.Audio
