import Famicom.Cpu.Status

/-!
# The register file

The stack pointer is kept as its low byte. The stack address always has page
one in front of it, so a push or a pull can never leave that page.
-/

namespace Famicom.Cpu

structure Registers where
  a : UInt8
  x : UInt8
  y : UInt8
  /-- Stack pointer: the next free cell of page one. -/
  s : UInt8
  pc : UInt16
  p : Status
deriving DecidableEq, Repr

namespace Registers

/-- The registers after power-on, before the reset vector is read. -/
def powerOn : Registers :=
  { a := 0, x := 0, y := 0, s := 0xFD, pc := 0, p := Status.powerOn }

@[inline] def stackAddress (r : Registers) : UInt16 := 0x0100 ||| r.s.toUInt16

/-- The cell that a push writes, and the registers after it. -/
@[inline] def push (r : Registers) : UInt16 × Registers :=
  (r.stackAddress, { r with s := r.s - 1 })

@[inline] def pull (r : Registers) : UInt16 × Registers :=
  let r := { r with s := r.s + 1 }
  (r.stackAddress, r)

/-- A pull undoes a push: it reads the same cell and leaves the same registers. -/
@[simp] theorem pull_push (r : Registers) : r.push.2.pull = (r.push.1, r) := by
  simp [push, pull, stackAddress]

end Registers

end Famicom.Cpu
