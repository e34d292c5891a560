import Famicom.Word

/-!
# Joypads

A joypad is read through a shift register. While the strobe is high the register
is loaded again and again, so every read gives the first button. After the
strobe has gone low the reads give the eight buttons one after the other, and
ones from then on.
-/

namespace Famicom

/-- The buttons, in the order in which they are read. -/
inductive Button where
  | a | b | select | start | up | down | left | right
deriving DecidableEq, Repr

namespace Button

def all : List Button := [a, b, select, start, up, down, left, right]

def mask : Button → UInt8
  | a => 0x01
  | b => 0x02
  | select => 0x04
  | start => 0x08
  | up => 0x10
  | down => 0x20
  | left => 0x40
  | right => 0x80

end Button

structure Joypad where
  held : UInt8
  /-- The next button to be read, eight when all have been. -/
  index : UInt8
  strobe : Bool
deriving DecidableEq, Repr

namespace Joypad

def idle : Joypad := { held := 0, index := 0, strobe := false }

/-- Hold these buttons and no others. -/
def hold (buttons : UInt8) (j : Joypad) : Joypad := { j with held := buttons }

def read (j : Joypad) : UInt8 × Joypad :=
  if j.strobe then (j.held &&& 1, j)
  else if j.index < 8 then ((j.held >>> j.index) &&& 1, { j with index := j.index + 1 })
  else (1, { j with index := 8 })

/-- Set the strobe. While it is high the reads start over. -/
def write (value : UInt8) (j : Joypad) : Joypad :=
  let strobe := hasBits value 0x01
  { j with strobe, index := if strobe then 0 else j.index }

end Joypad

end Famicom
