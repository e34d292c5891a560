/-!
# Length counters

A length counter silences its channel when it has counted down. It counts half
frames, unless it is halted, and is loaded with one of 32 lengths while the
channel is enabled.
-/

namespace Famicom.Audio

/-- The lengths that can be loaded, in half frames. -/
def lengths : Vector UInt8 32 := #v[
  10, 254, 20, 2, 40, 4, 80, 6, 160, 8, 60, 10, 14, 12, 26, 14,
  12, 16, 24, 18, 48, 20, 96, 22, 192, 24, 72, 26, 16, 28, 32, 30
]

structure LengthCounter where
  counter : UInt8
  halt : Bool
  enabled : Bool
deriving DecidableEq, Repr

namespace LengthCounter

def off : LengthCounter := { counter := 0, halt := false, enabled := false }

@[inline] def active (l : LengthCounter) : Bool := l.counter > 0

def clock (l : LengthCounter) : LengthCounter :=
  if !l.halt && l.counter > 0 then { l with counter := l.counter - 1 } else l

/-- Load a length by its number, of which five bits count. A disabled channel
keeps none. -/
def load (number : UInt8) (l : LengthCounter) : LengthCounter :=
  if l.enabled then
    have : number.toNat % 32 < 32 := Nat.mod_lt _ (by decide)
    { l with counter := lengths[number.toNat % 32] }
  else l

def setHalt (halt : Bool) (l : LengthCounter) : LengthCounter := { l with halt }

/-- A disabled channel is silent at once. -/
def setEnabled (enabled : Bool) (l : LengthCounter) : LengthCounter :=
  { l with enabled, counter := if enabled then l.counter else 0 }

end LengthCounter

end Famicom.Audio
