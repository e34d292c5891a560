import Famicom.Cpu.AddressSpace
import Famicom.Cpu.Instruction
import Famicom.Cpu.Registers

/-!
# Operands

The operand of an instruction is an effective address. It is found once, while
the program counter still points at the opcode.
-/

namespace Famicom.Cpu

structure Operand where
  /-- Effective address, or the target of a jump or branch. Of no meaning in
  the implied and accumulator modes. -/
  address : UInt16
  /-- Whether indexing left the page of the base address. -/
  pageCrossed : Bool
deriving DecidableEq, Repr

namespace Operand

@[inline] def direct (address : UInt16) : Operand := { address, pageCrossed := false }

@[inline] def indexed (base : UInt16) (index : UInt8) : Operand :=
  let address := base + index.toUInt16
  { address, pageCrossed := !Word.samePage base address }

variable {σ : Type} [AddressSpace σ]

/-- The operand of an instruction at the program counter. Indices in page zero
and pointers to it stay in page zero; branch offsets count from the following
instruction. -/
@[specialize] def resolve (mode : Mode) (r : Registers) (s : σ) : Operand × σ :=
  let place := r.pc + 1
  match mode with
  | .implied | .accumulator => (direct 0, s)
  | .immediate => (direct place, s)
  | .zeroPage =>
    let (base, s) := AddressSpace.read place s
    (direct base.toUInt16, s)
  | .zeroPageX =>
    let (base, s) := AddressSpace.read place s
    (direct (base + r.x).toUInt16, s)
  | .zeroPageY =>
    let (base, s) := AddressSpace.read place s
    (direct (base + r.y).toUInt16, s)
  | .absolute =>
    let (base, s) := AddressSpace.readWord place s
    (direct base, s)
  | .absoluteX =>
    let (base, s) := AddressSpace.readWord place s
    (indexed base r.x, s)
  | .absoluteY =>
    let (base, s) := AddressSpace.readWord place s
    (indexed base r.y, s)
  | .indirect =>
    let (pointer, s) := AddressSpace.readWord place s
    let (address, s) := AddressSpace.readWordInPage pointer s
    (direct address, s)
  | .indexedIndirect =>
    let (pointer, s) := AddressSpace.read place s
    let (address, s) := AddressSpace.readWordInPage (pointer + r.x).toUInt16 s
    (direct address, s)
  | .indirectIndexed =>
    let (pointer, s) := AddressSpace.read place s
    let (base, s) := AddressSpace.readWordInPage pointer.toUInt16 s
    (indexed base r.y, s)
  | .relative =>
    let (offset, s) := AddressSpace.read place s
    (direct (r.pc + 2 + Word.signExtend offset), s)

end Operand

end Famicom.Cpu
