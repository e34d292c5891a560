import Famicom.Cpu.Registers

/-!
# Arithmetic of the processor

What the arithmetic unit does to the registers. The decimal flag has no
influence: sums and differences are always binary.
-/

namespace Famicom.Cpu

namespace Registers

/-- Put a byte into the accumulator and record its sign. -/
@[inline] def setA (r : Registers) (v : UInt8) : Registers :=
  { r with a := v, p := r.p.withResult v }

@[inline] def setX (r : Registers) (v : UInt8) : Registers :=
  { r with x := v, p := r.p.withResult v }

@[inline] def setY (r : Registers) (v : UInt8) : Registers :=
  { r with y := v, p := r.p.withResult v }

/-- Add a byte and the carry to the accumulator. Overflow means that two
operands of one sign gave a sum of the other. -/
def add (r : Registers) (v : UInt8) : Registers :=
  let carryIn : UInt16 := if r.p.has Status.carry then 1 else 0
  let sum := r.a.toUInt16 + v.toUInt16 + carryIn
  let result := sum.toUInt8
  let overflow := !hasBits (r.a ^^^ v) 0x80 && hasBits (r.a ^^^ result) 0x80
  let p := (r.p.assign Status.carry (sum > 0xFF)).assign Status.overflow overflow
  { r with a := result, p := p.withResult result }

/-- Subtract a byte and the borrow, which is the missing carry, from the
accumulator. Overflow means that operands of different signs gave a difference
whose sign is not the minuend's. -/
def subtract (r : Registers) (v : UInt8) : Registers :=
  let borrow : UInt8 := if r.p.has Status.carry then 0 else 1
  let result := r.a - v - borrow
  let noBorrow := r.a.toUInt16 ≥ v.toUInt16 + borrow.toUInt16
  let overflow := hasBits (r.a ^^^ v) 0x80 && hasBits (r.a ^^^ result) 0x80
  let p := (r.p.assign Status.carry noBorrow).assign Status.overflow overflow
  { r with a := result, p := p.withResult result }

/-- Compare a register with a byte: the flags of their difference. -/
def compare (r : Registers) (register v : UInt8) : Registers :=
  { r with p := (r.p.withResult (register - v)).assign Status.carry (register ≥ v) }

/-- Test the bits of a byte against the accumulator. Bits 6 and 7 of the byte
go to the overflow and sign flags unmasked. -/
def testBits (r : Registers) (v : UInt8) : Registers :=
  let p := (r.p.assign Status.overflow (hasBits v 0x40)).assign Status.negative (hasBits v 0x80)
  { r with p := p.assign Status.zero (v &&& r.a == 0) }

end Registers

/-! Operations that replace a byte, in the accumulator or in memory. -/

namespace Status

@[inline] def carryBit (p : Status) : UInt8 := if p.has carry then 1 else 0

/-- Shift left; bit 7 goes to the carry. -/
def shiftLeft (p : Status) (v : UInt8) : Status × UInt8 :=
  let result := v <<< 1
  ((p.assign carry (hasBits v 0x80)).withResult result, result)

/-- Shift right; bit 0 goes to the carry. -/
def shiftRight (p : Status) (v : UInt8) : Status × UInt8 :=
  let result := v >>> 1
  ((p.assign carry (hasBits v 0x01)).withResult result, result)

def rotateLeft (p : Status) (v : UInt8) : Status × UInt8 :=
  let result := v <<< 1 ||| p.carryBit
  ((p.assign carry (hasBits v 0x80)).withResult result, result)

def rotateRight (p : Status) (v : UInt8) : Status × UInt8 :=
  let result := v >>> 1 ||| p.carryBit <<< 7
  ((p.assign carry (hasBits v 0x01)).withResult result, result)

/-- Add one; the carry is not touched. -/
def increment (p : Status) (v : UInt8) : Status × UInt8 := (p.withResult (v + 1), v + 1)

def decrement (p : Status) (v : UInt8) : Status × UInt8 := (p.withResult (v - 1), v - 1)

end Status

end Famicom.Cpu
