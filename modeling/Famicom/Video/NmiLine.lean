/-!
# The blanking interrupt

The interrupt line is high while the program wants the interrupt and vertical
blanking has begun. The processor sees a rising edge fifteen dots later, and
only if the line is still high then.
-/

namespace Famicom.Video

/-- Dots from a rising edge to the interrupt. -/
def nmiDelay : UInt8 := 15

structure NmiLine where
  occurred : Bool
  /-- Whether the program wants the interrupt. -/
  output : Bool
  /-- The level of the line at its last change. -/
  previous : Bool
  /-- Dots until the interrupt; zero if none is on its way. -/
  delay : UInt8
  pending : Bool
deriving DecidableEq, Repr

namespace NmiLine

def idle : NmiLine :=
  { occurred := false, output := false, previous := false, delay := 0, pending := false }

@[inline] def level (n : NmiLine) : Bool := n.output && n.occurred

@[inline] def update (n : NmiLine) : NmiLine :=
  let level := n.level
  { n with previous := level, delay := if level && !n.previous then nmiDelay else n.delay }

@[inline] def setOccurred (occurred : Bool) (n : NmiLine) : NmiLine := { n with occurred }.update

@[inline] def setOutput (output : Bool) (n : NmiLine) : NmiLine := { n with output }.update

@[inline] def advance (n : NmiLine) : NmiLine :=
  if n.delay == 0 then n
  else
    let delay := n.delay - 1
    { n with delay, pending := n.pending || (delay == 0 && n.level) }

end NmiLine

end Famicom.Video
