import Famicom.Cpu.Arithmetic
import Famicom.Cpu.Operand

/-!
# Effects of instructions

Every instruction belongs to one of a dozen kinds, and the kind alone says
which accesses it makes: loads read the operand once, stores write it once,
shifts and counters in memory read and then write it, and so on. What is left
of an instruction is a function on registers and bytes.
-/

namespace Famicom.Cpu

/-- What an instruction does once its operand is known. -/
inductive Effect where
  /-- Changes registers only. -/
  | internal (update : Registers → Registers)
  | reads (update : Registers → UInt8 → Registers)
  | writes (source : Registers → UInt8)
  /-- Replaces the operand, which is the accumulator in accumulator mode. -/
  | modifies (update : Status → UInt8 → Status × UInt8)
  | pushes (source : Registers → UInt8)
  | pulls (update : Registers → UInt8 → Registers)
  | branches (taken : Status → Bool)
  | jumps
  | calls
  /-- Goes behind the call whose return address is on the stack. -/
  | returns
  | resumes
  /-- Enters the interrupt handler from the program itself. -/
  | breaks

open Status in
/-- The effect of each mnemonic. Undocumented operations have none. -/
def Mnemonic.effect : Mnemonic → Effect
  | lda => .reads fun r v => r.setA v
  | ldx => .reads fun r v => r.setX v
  | ldy => .reads fun r v => r.setY v
  | sta => .writes fun r => r.a
  | stx => .writes fun r => r.x
  | sty => .writes fun r => r.y
  | tax => .internal fun r => r.setX r.a
  | tay => .internal fun r => r.setY r.a
  | txa => .internal fun r => r.setA r.x
  | tya => .internal fun r => r.setA r.y
  | tsx => .internal fun r => r.setX r.s
  | txs => .internal fun r => { r with s := r.x }
  | pha => .pushes fun r => r.a
  | php => .pushes fun r => r.p.pushed
  | pla => .pulls fun r v => r.setA v
  | plp => .pulls fun r v => { r with p := Status.pulled v }
  | adc => .reads fun r v => r.add v
  | sbc => .reads fun r v => r.subtract v
  | and => .reads fun r v => r.setA (r.a &&& v)
  | ora => .reads fun r v => r.setA (r.a ||| v)
  | eor => .reads fun r v => r.setA (r.a ^^^ v)
  | bit => .reads fun r v => r.testBits v
  | cmp => .reads fun r v => r.compare r.a v
  | cpx => .reads fun r v => r.compare r.x v
  | cpy => .reads fun r v => r.compare r.y v
  | inc => .modifies increment
  | dec => .modifies decrement
  | inx => .internal fun r => r.setX (r.x + 1)
  | iny => .internal fun r => r.setY (r.y + 1)
  | dex => .internal fun r => r.setX (r.x - 1)
  | dey => .internal fun r => r.setY (r.y - 1)
  | asl => .modifies shiftLeft
  | lsr => .modifies shiftRight
  | rol => .modifies rotateLeft
  | ror => .modifies rotateRight
  | jmp => .jumps
  | jsr => .calls
  | rts => .returns
  | rti => .resumes
  | brk => .breaks
  | bcc => .branches fun p => !p.has carry
  | bcs => .branches fun p => p.has carry
  | bne => .branches fun p => !p.has zero
  | beq => .branches fun p => p.has zero
  | bpl => .branches fun p => !p.has negative
  | bmi => .branches fun p => p.has negative
  | bvc => .branches fun p => !p.has overflow
  | bvs => .branches fun p => p.has overflow
  | clc => .internal fun r => { r with p := r.p.clear carry }
  | sec => .internal fun r => { r with p := r.p.set carry }
  | cli => .internal fun r => { r with p := r.p.clear interruptDisable }
  | sei => .internal fun r => { r with p := r.p.set interruptDisable }
  | cld => .internal fun r => { r with p := r.p.clear decimal }
  | sed => .internal fun r => { r with p := r.p.set decimal }
  | clv => .internal fun r => { r with p := r.p.clear overflow }
  | nop => .internal fun r => r
  | ahx | alr | anc | arr | axs | dcp | isc | kil | las | lax | rla | rra | sax | shx
  | shy | slo | sre | tas | xaa => .internal fun r => r

/-! ## The stack -/

section Stack

variable {σ : Type} [AddressSpace σ]

@[specialize] def pushByte (v : UInt8) (r : Registers) (s : σ) : Registers × σ :=
  let (address, r) := r.push
  (r, AddressSpace.write address v s)

/-- Push a word, high byte first. -/
@[specialize] def pushWord (v : UInt16) (r : Registers) (s : σ) : Registers × σ :=
  let (r, s) := pushByte (Word.high v) r s
  pushByte (Word.low v) r s

@[specialize] def pullByte (r : Registers) (s : σ) : UInt8 × Registers × σ :=
  let (address, r) := r.pull
  let (v, s) := AddressSpace.read address s
  (v, r, s)

/-- Pull a word, low byte first. -/
@[specialize] def pullWord (r : Registers) (s : σ) : UInt16 × Registers × σ :=
  let (low, r, s) := pullByte r s
  let (high, r, s) := pullByte r s
  (Word.ofBytes low high, r, s)

/-- Enter a handler: the program counter and the status go to the stack, further
requests are disabled, and the handler's address comes from the vector. -/
@[specialize] def enterHandler (vector : UInt16) (r : Registers) (s : σ) : Registers × σ :=
  let (r, s) := pushWord r.pc r s
  let (r, s) := pushByte r.p.pushed r s
  let (pc, s) := AddressSpace.readWord vector s
  ({ r with pc, p := r.p.set Status.interruptDisable }, s)

end Stack

/-- Where the handler of interrupt requests and breaks is found. -/
def requestVector : UInt16 := 0xFFFE

/-- Carry out an instruction. The program counter of `r` already points behind
it. -/
@[specialize] def execute {σ : Type} [AddressSpace σ] (i : Instruction) (o : Operand)
    (r : Registers) (s : σ) : Registers × σ :=
  match i.mnemonic.effect with
  | .internal update => (update r, s)
  | .reads update =>
    let (v, s) := AddressSpace.read o.address s
    (update r v, s)
  | .writes source => (r, AddressSpace.write o.address (source r) s)
  | .modifies update =>
    if i.mode = .accumulator then
      let (p, a) := update r.p r.a
      ({ r with a, p }, s)
    else
      let (v, s) := AddressSpace.read o.address s
      let (p, v) := update r.p v
      ({ r with p }, AddressSpace.write o.address v s)
  | .pushes source => pushByte (source r) r s
  | .pulls update =>
    let (v, r, s) := pullByte r s
    (update r v, s)
  | .branches taken => (if taken r.p then { r with pc := o.address } else r, s)
  | .jumps => ({ r with pc := o.address }, s)
  | .calls =>
    let (r, s) := pushWord (r.pc - 1) r s
    ({ r with pc := o.address }, s)
  | .returns =>
    let (pc, r, s) := pullWord r s
    ({ r with pc := pc + 1 }, s)
  | .resumes =>
    let (p, r, s) := pullByte r s
    let (pc, r, s) := pullWord { r with p := Status.pulled p } s
    ({ r with pc }, s)
  | .breaks => enterHandler requestVector r s

/-- What a branch costs beyond its base: one cycle if it is taken, and one more
if its target lies in another page than the following instruction. -/
def branchCycles (i : Instruction) (o : Operand) (r : Registers) : UInt32 :=
  match i.mnemonic.effect with
  | .branches taken =>
    if taken r.p then
      if Word.samePage r.pc o.address then 1 else 2
    else 0
  | _ => 0

end Famicom.Cpu
