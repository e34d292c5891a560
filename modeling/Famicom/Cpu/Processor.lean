import Famicom.Cpu.Decode
import Famicom.Cpu.Effect
import Famicom.Reading

/-!
# The processor

The processor runs one whole instruction per step and says how many cycles it
took; everything else in the machine catches up afterwards. Interrupts are
latched between steps and looked at when the next step begins. A stalled
processor spends its step waiting for one cycle.
-/

namespace Famicom.Cpu

/-- The interrupts, from the most to the least urgent. -/
inductive Interrupt where
  | reset
  | nmi
  | irq
deriving DecidableEq, Repr

structure Processor where
  registers : Registers
  cycles : UInt64
  stall : UInt32
  pending : Option Interrupt
deriving DecidableEq, Repr

namespace Processor

def nmiVector : UInt16 := 0xFFFA
def resetVector : UInt16 := 0xFFFC
def entryCycles : UInt32 := 7

def powerOff : Processor :=
  { registers := .powerOn, cycles := 0, stall := 0, pending := none }

/-- Wait for further cycles. The count stops at its greatest value. -/
def addStall (c : Processor) (cycles : UInt32) : Processor :=
  let sum := c.stall + cycles
  { c with stall := if sum < c.stall then 0xFFFFFFFF else sum }

/-- Latch an interrupt for the next step. A request is dropped while requests
are disabled, and nothing replaces what is more urgent. -/
def request (c : Processor) : Interrupt → Processor
  | .reset => { c with pending := some .reset }
  | .nmi => if c.pending = some .reset then c else { c with pending := some .nmi }
  | .irq =>
    if !c.registers.p.has Status.interruptDisable && c.pending.isNone then
      { c with pending := some .irq }
    else c

section

variable {σ : Type} [AddressSpace σ]

/-- Power-on: fresh registers, and the program counter from the reset vector. -/
@[specialize] def powerOn (c : Processor) (s : σ) : Processor × σ :=
  let (pc, s) := AddressSpace.readWord resetVector s
  ({ c with registers := { Registers.powerOn with pc }, stall := 0, pending := none }, s)

/-- Enter the reset routine of a running machine: three pushes that write
nothing, and requests disabled. -/
@[specialize] def enterReset (r : Registers) (s : σ) : Registers × σ :=
  let (pc, s) := AddressSpace.readWord resetVector s
  ({ r with s := r.s - 3, p := r.p.set Status.interruptDisable, pc }, s)

/-- Take the latched interrupt, if there is one. A request that was disabled
in the meantime is dropped for free. The first component is the cost. -/
@[specialize] def takeInterrupt (pending : Option Interrupt) (r : Registers) (s : σ) :
    UInt32 × Registers × σ :=
  match pending with
  | none => (0, r, s)
  | some .reset => (entryCycles, enterReset r s)
  | some .nmi => (entryCycles, enterHandler nmiVector r s)
  | some .irq =>
    if r.p.has Status.interruptDisable then (0, r, s)
    else (entryCycles, enterHandler requestVector r s)

/-- Fetch and carry out the instruction at the program counter. The first
component is its cost: the base cost, the cost of leaving a page, and that of
branching. -/
@[specialize] def runInstruction (r : Registers) (s : σ) : UInt32 × Registers × σ :=
  let (opcode, s) := AddressSpace.read r.pc s
  let i := Instruction.decode opcode
  let (o, s) := Operand.resolve i.mode r s
  let r := { r with pc := r.pc + i.size }
  let paging : UInt8 := if o.pageCrossed then i.pageCycles else 0
  let cost := i.cycles.toUInt32 + paging.toUInt32 + branchCycles i o r
  (cost, execute i o r s)

/-- One step: a cycle of waiting, or an instruction with the interrupt before
it. The first component is the number of cycles it took. -/
@[specialize] def step (c : Processor) (s : σ) : UInt32 × Processor × σ :=
  if c.stall > 0 then
    (1, { c with stall := c.stall - 1, cycles := c.cycles + 1 }, s)
  else
    let (entry, r, s) := takeInterrupt c.pending c.registers s
    let (cost, r, s) := runInstruction r s
    let cycles := entry + cost
    (cycles, { c with registers := r, cycles := c.cycles + cycles.toUInt64, pending := none }, s)

end

/-- The processor that continues from a saved one. The two status bits without
a latch get their fixed values. -/
def restore (saved : Processor) : Processor :=
  let p := (saved.registers.p.set Status.unused).clear Status.breakCopy
  { saved with registers := { saved.registers with p } }

def panel (c : Processor) : Panel :=
  let r := c.registers
  [("pc", .word r.pc), ("a", .byte r.a), ("x", .byte r.x), ("y", .byte r.y),
   ("sp", .word r.stackAddress), ("p", .byte r.p.bits),
   ("flags.c", .flag (r.p.has Status.carry)), ("flags.z", .flag (r.p.has Status.zero)),
   ("flags.i", .flag (r.p.has Status.interruptDisable)),
   ("flags.d", .flag (r.p.has Status.decimal)), ("flags.v", .flag (r.p.has Status.overflow)),
   ("flags.n", .flag (r.p.has Status.negative)),
   ("cycles", .wide c.cycles), ("stall", .long c.stall),
   ("pending", .label (match c.pending with
     | none => "none"
     | some .reset => "reset"
     | some .nmi => "nmi"
     | some .irq => "irq"))]

end Processor

end Famicom.Cpu
