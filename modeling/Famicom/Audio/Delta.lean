import Famicom.Word

/-!
# The delta channel

The delta channel plays a sample from the program. Each bit of a sample moves
the output up or down by two. A shift register plays the bits of one byte while
a buffer waits with the next; an empty buffer asks for a byte, which somebody
else has to fetch.
-/

namespace Famicom.Audio

def deltaPeriods : Vector UInt16 16 := #v[
  428, 380, 340, 320, 286, 254, 226, 214, 190, 160, 142, 128, 106, 84, 72, 54
]

structure Delta where
  /-- The output, from 0 to 127. -/
  level : UInt8
  irqEnabled : Bool
  /-- The end of a sample was reached. It is shown in the status only. -/
  irqFlag : Bool
  looping : Bool
  timer : UInt16
  period : UInt16
  sampleAddress : UInt16
  sampleLength : UInt16
  /-- Where the next byte comes from. -/
  address : UInt16
  remaining : UInt16
  buffer : UInt8
  bufferEmpty : Bool
  /-- The bits being played, the next one lowest. -/
  shift : UInt8
  /-- Bits until the shift register takes the buffer. -/
  bitsLeft : UInt8
  silent : Bool
  wanted : Bool
deriving DecidableEq, Repr

namespace Delta

def powerOn : Delta :=
  { level := 0, irqEnabled := false, irqFlag := false, looping := false
    timer := 428, period := 428
    sampleAddress := 0xC000, sampleLength := 1, address := 0xC000, remaining := 0
    buffer := 0, bufferEmpty := true, shift := 0, bitsLeft := 8, silent := true
    wanted := false }

def write (register : UInt16) (value : UInt8) (c : Delta) : Delta :=
  match register &&& 0x03 with
  | 0 =>
    let irqEnabled := hasBits value 0x80
    have := Byte.mod_sixteen_lt value
    { c with
      irqEnabled
      irqFlag := c.irqFlag && irqEnabled
      looping := hasBits value 0x40
      period := deltaPeriods[value.toNat % 16] }
  | 1 => { c with level := value &&& 0x7F }
  | 2 => { c with sampleAddress := (0xC000 : UInt16) ||| (value.toUInt16 <<< 6) }
  | _ => { c with sampleLength := (value.toUInt16 <<< 4) ||| (1 : UInt16) }

/-- Stop, or start a sample unless one is being played. The end flag is cleared
in either case. -/
def setEnabled (enabled : Bool) (c : Delta) : Delta :=
  let c := { c with irqFlag := false }
  if !enabled then { c with remaining := 0, wanted := false }
  else if c.remaining == 0 then
    { c with
      address := c.sampleAddress
      remaining := c.sampleLength
      wanted := c.wanted || c.bufferEmpty }
  else c

/-- The output after one more bit. It does not leave its range. -/
@[inline] def move (bit : Bool) (level : UInt8) : UInt8 :=
  if bit then if level ≤ 125 then level + 2 else level
  else if level ≥ 2 then level - 2 else level

@[inline] def playBit (c : Delta) : Delta :=
  if c.silent then c
  else { c with level := move (c.shift &&& 1 != 0) c.level, shift := c.shift >>> 1 }

def takeBuffer (c : Delta) : Delta :=
  let c := { c with bitsLeft := 8, wanted := c.wanted || c.remaining > 0 }
  if c.bufferEmpty then { c with silent := true }
  else { c with silent := false, shift := c.buffer, bufferEmpty := true }

def clockOutput (c : Delta) : Delta :=
  let c := c.playBit
  let c := { c with bitsLeft := c.bitsLeft - 1 }
  if c.bitsLeft == 0 then c.takeBuffer else c

@[inline] def clockTimer (c : Delta) : Delta :=
  if c.timer == 0 then { c with timer := c.period }.clockOutput
  else { c with timer := c.timer - 1 }

@[inline] def active (c : Delta) : Bool := c.remaining > 0

@[inline] def request? (c : Delta) : Option UInt16 :=
  if c.wanted && c.remaining > 0 then some c.address else none

/-- The address behind another one. Samples stay in the upper half of the
address space. -/
def nextAddress (address : UInt16) : UInt16 := if address == 0xFFFF then 0x8000 else address + 1

/-- Start over or stop, once all bytes have been fetched. -/
def finishSample (c : Delta) : Delta :=
  if c.remaining > 0 then c
  else if c.looping then { c with address := c.sampleAddress, remaining := c.sampleLength }
  else { c with irqFlag := c.irqFlag || c.irqEnabled }

def deliver (byte : UInt8) (c : Delta) : Delta :=
  let c := { c with wanted := false }
  if c.remaining == 0 then c
  else
    { c with
      buffer := byte
      bufferEmpty := false
      address := nextAddress c.address
      remaining := c.remaining - 1 }.finishSample

/-- The output keeps its width, the bit counter stays between one and eight, and samples
lie in the upper half of the address space. -/
def restore (saved : Delta) : Delta :=
  { saved with
    level := saved.level &&& 0x7F
    sampleAddress := saved.sampleAddress ||| 0x8000
    address := saved.address ||| 0x8000
    bitsLeft := max 1 (min saved.bitsLeft 8) }

end Delta

end Famicom.Audio
