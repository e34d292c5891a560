import Famicom.Proofs.Cpu.Accesses
import Famicom.Proofs.Cpu.Cost
import Famicom.Proofs.Cpu.Settled

/-!
# A handler gives back what it interrupted

An interrupt, a break and a call leave a way back on the stack, and the instructions
that end a handler or a routine take it. Whatever happens in between, the way back is
the right one, if the stack pointer and the bytes on the stack are what they were when
the handler began:

* **entry** — what is pushed is in the cells below the stack pointer, also where page
  one begins anew (`cell_enterHandler`, `cell_pushWord`);
* **return** — what is in the cells above the stack pointer goes to the registers
  (`step_rti`, `step_rts`);
* **status** — of the pushed copy, the two bits without a latch are lost, and they had
  their values before (`Status.pulled_pushed`, `Status.Settled.restored`).

`return_transparent` puts the two together, for memory without side effects.
-/

namespace Famicom.Cpu

open AddressSpace Processor

/-! ## The stack in memory -/

/-- The byte in the cell that a stack pointer stands for. -/
def cell (m : FlatMemory) (s : UInt8) : UInt8 := m.read (stackCell s).toNat

theorem toNat_stackCell (s : UInt8) : (stackCell s).toNat = 256 + s.toNat := by
  have hor := Nat.shiftLeft_add_eq_or_of_lt s.toNat_lt 1
  rw [stackCell, UInt16.toNat_or, UInt8.toNat_toUInt16]
  exact hor.symm

/-- A push changes one cell. -/
theorem cell_write (m : FlatMemory) (s s' : UInt8) (v : UInt8) :
    cell (AddressSpace.write (stackCell s) v m) s' = if s = s' then v else cell m s' := by
  show (m.write (stackCell s).toNat v).read (stackCell s').toNat = _
  have hs := s.toNat_lt
  have hs' := s'.toNat_lt
  have hsame : (256 + s.toNat) % 0x10000 = (256 + s'.toNat) % 0x10000 ↔ s = s' := by
    rw [← UInt8.toNat_inj]
    omega
  rw [Memory.read_write, toNat_stackCell, toNat_stackCell]
  simp only [hsame]
  rw [← toNat_stackCell]
  rfl

theorem cell_pushWord (v : UInt16) (r : Registers) (m : FlatMemory) :
    cell (pushWord v r m).2 r.s = Word.high v ∧ cell (pushWord v r m).2 (r.s - 1) = Word.low v := by
  have hone : r.s - 1 ≠ r.s := by grind
  show cell (AddressSpace.write (stackCell (r.s - 1)) (Word.low v)
      (AddressSpace.write (stackCell r.s) (Word.high v) m)) r.s = _ ∧
    cell (AddressSpace.write (stackCell (r.s - 1)) (Word.low v)
      (AddressSpace.write (stackCell r.s) (Word.high v) m)) (r.s - 1) = _
  rw [cell_write, if_neg hone, cell_write, if_pos rfl, cell_write, if_pos rfl]
  exact ⟨rfl, rfl⟩

theorem cell_enterHandler (vector : UInt16) (r : Registers) (m : FlatMemory) :
    cell (enterHandler vector r m).2 r.s = Word.high r.pc ∧
      cell (enterHandler vector r m).2 (r.s - 1) = Word.low r.pc ∧
      cell (enterHandler vector r m).2 (r.s - 2) = r.p.pushed := by
  have hzero : r.s - 2 ≠ r.s := by grind
  have hone : r.s - 2 ≠ r.s - 1 := by grind
  have hmemory : (enterHandler vector r m).2 =
      AddressSpace.write (stackCell (r.s - 2)) r.p.pushed (pushWord r.pc r m).2 := by
    rw [enterHandler_eq, Status.pushed_eq]
    rfl
  obtain ⟨hhigh, hlow⟩ := cell_pushWord r.pc r m
  rw [hmemory, cell_write, if_neg hzero, cell_write, if_neg hone, cell_write, if_pos rfl]
  exact ⟨hhigh, hlow, rfl⟩

/-- Entering a handler takes three cells of the stack. -/
theorem pointer_enterHandler (vector : UInt16) (r : Registers) (m : FlatMemory) :
    (enterHandler vector r m).1.s = r.s - 3 := by
  rw [enterHandler_eq]
  rfl

namespace Processor

/-! ## Steps in memory -/

/-- A step that neither waits nor takes an interrupt. -/
theorem step_eq_runInstruction {σ : Type} [AddressSpace σ] {c : Processor} (hstall : c.stall = 0)
    (hpending : c.pending = none) (s : σ) :
    (c.step s).2.1.registers = (runInstruction c.registers s).2.1 ∧
      (c.step s).2.2 = (runInstruction c.registers s).2.2 := by
  have hruns : ¬ c.stall > 0 := by
    rw [hstall]
    decide
  simp only [step, if_neg hruns, hpending, takeInterrupt]
  exact ⟨trivial, trivial⟩

/-- Behind an instruction nothing is latched, and there is nothing to wait for. -/
theorem ready_step {σ : Type} [AddressSpace σ] {c : Processor} (hstall : c.stall = 0) (s : σ) :
    (c.step s).2.1.stall = 0 ∧ (c.step s).2.1.pending = none := by
  have hruns : ¬ c.stall > 0 := by
    rw [hstall]
    decide
  simp only [step, if_neg hruns]
  exact ⟨hstall, trivial⟩

/-- To find an operand changes nothing in memory. -/
theorem resolve_memory (mode : Mode) (r : Registers) (m : FlatMemory) :
    (Operand.resolve mode r m).2 = m := by
  cases mode <;> rfl

theorem runInstruction_memory {r : Registers} {m : FlatMemory} {opcode : UInt8} {i : Instruction}
    (hopcode : m.read r.pc.toNat = opcode) (hdecode : Instruction.decode opcode = i) :
    (runInstruction r m).2 =
      execute i (Operand.resolve i.mode r m).1 { r with pc := r.pc + i.size } m := by
  have hread : AddressSpace.read r.pc m = (opcode, m) := by
    rw [← hopcode]
    rfl
  unfold runInstruction
  simp only [hread, hdecode]
  generalize hresolved : Operand.resolve i.mode r m = resolved
  have hmemory : resolved.2 = m := hresolved ▸ resolve_memory i.mode r m
  rw [hmemory]

variable {c : Processor} {m : FlatMemory}

/-- The instruction at the end of a handler pulls the status and the program counter. -/
theorem step_rti (hstall : c.stall = 0) (hpending : c.pending = none)
    (hopcode : m.read c.registers.pc.toNat = 0x40) :
    (c.step m).2.1.registers = { c.registers with
      s := c.registers.s + 3
      p := Status.pulled (cell m (c.registers.s + 1))
      pc := Word.ofBytes (cell m (c.registers.s + 2)) (cell m (c.registers.s + 3)) } := by
  have htwo : c.registers.s + 1 + 1 = c.registers.s + 2 := by grind
  have hthree : c.registers.s + 1 + 1 + 1 = c.registers.s + 3 := by grind
  rw [(step_eq_runInstruction hstall hpending m).1,
    runInstruction_memory hopcode (i := ⟨.rti, .implied, 6, 0⟩) rfl, ← hthree, ← htwo]
  rfl

/-- The instruction at the end of a routine pulls the program counter. -/
theorem step_rts (hstall : c.stall = 0) (hpending : c.pending = none)
    (hopcode : m.read c.registers.pc.toNat = 0x60) :
    (c.step m).2.1.registers = { c.registers with
      s := c.registers.s + 2
      pc := Word.ofBytes (cell m (c.registers.s + 1)) (cell m (c.registers.s + 2)) + 1 } := by
  have htwo : c.registers.s + 1 + 1 = c.registers.s + 2 := by grind
  rw [(step_eq_runInstruction hstall hpending m).1,
    runInstruction_memory hopcode (i := ⟨.rts, .implied, 6, 0⟩) rfl, ← htwo]
  rfl

/-- With a way back on the stack, the end of a handler restores what was interrupted. -/
theorem step_rti_restores {s : UInt8} {pc : UInt16} {p : Status} (hstall : c.stall = 0)
    (hpending : c.pending = none) (hopcode : m.read c.registers.pc.toNat = 0x40)
    (hpointer : c.registers.s = s - 3) (hhigh : cell m s = Word.high pc)
    (hlow : cell m (s - 1) = Word.low pc) (hstatus : cell m (s - 2) = p.pushed) (hp : p.Settled) :
    (c.step m).2.1.registers.s = s ∧ (c.step m).2.1.registers.pc = pc ∧
      (c.step m).2.1.registers.p = p := by
  have hone : s - 3 + 1 = s - 2 := by grind
  have htwo : s - 3 + 2 = s - 1 := by grind
  have hthree : s - 3 + 3 = s := by grind
  rw [step_rti hstall hpending hopcode, hpointer, hone, htwo, hthree, hhigh, hlow, hstatus,
    Status.pulled_pushed, hp.restored, Word.ofBytes_low_high]
  exact ⟨rfl, rfl, rfl⟩

/-- With a way back on the stack, the end of a routine goes behind the call. -/
theorem step_rts_restores {s : UInt8} {pc : UInt16} (hstall : c.stall = 0)
    (hpending : c.pending = none) (hopcode : m.read c.registers.pc.toNat = 0x60)
    (hpointer : c.registers.s = s - 2) (hhigh : cell m s = Word.high (pc - 1))
    (hlow : cell m (s - 1) = Word.low (pc - 1)) :
    (c.step m).2.1.registers.s = s ∧ (c.step m).2.1.registers.pc = pc := by
  have hone : s - 2 + 1 = s - 1 := by grind
  have htwo : s - 2 + 2 = s := by grind
  have hback : pc - 1 + 1 = pc := by grind
  rw [step_rts hstall hpending hopcode, hpointer, hone, htwo, hhigh, hlow, Word.ofBytes_low_high,
    hback]
  exact ⟨rfl, rfl⟩

/-- A break enters the handler of requests, behind its byte of padding. -/
theorem step_brk (hstall : c.stall = 0) (hpending : c.pending = none)
    (hopcode : m.read c.registers.pc.toNat = 0x00) :
    let entered := enterHandler requestVector { c.registers with pc := c.registers.pc + 2 } m
    (c.step m).2.1.registers = entered.1 ∧ (c.step m).2.2 = entered.2 := by
  obtain ⟨hregisters, hmemory⟩ := step_eq_runInstruction hstall hpending m
  rw [hregisters, hmemory, runInstruction_memory hopcode (i := ⟨.brk, .implied, 7, 0⟩) rfl]
  exact ⟨rfl, rfl⟩

/-- A call pushes the address of its last byte. -/
theorem step_jsr (hstall : c.stall = 0) (hpending : c.pending = none)
    (hopcode : m.read c.registers.pc.toNat = 0x20) :
    let pushed := pushWord (c.registers.pc + 3 - 1) c.registers m
    (c.step m).2.1.registers.s = c.registers.s - 2 ∧ (c.step m).2.2 = pushed.2 := by
  obtain ⟨hregisters, hmemory⟩ := step_eq_runInstruction hstall hpending m
  rw [hregisters, hmemory, runInstruction_memory hopcode (i := ⟨.jsr, .absolute, 6, 0⟩) rfl]
  refine ⟨?_, rfl⟩
  show c.registers.s - 1 - 1 = c.registers.s - 2
  grind

/-- The operation that does nothing goes on to the next one. -/
theorem step_nop (hstall : c.stall = 0) (hpending : c.pending = none)
    (hopcode : m.read c.registers.pc.toNat = 0xEA) :
    (c.step m).2.1.registers = { c.registers with pc := c.registers.pc + 1 } ∧
      (c.step m).2.2 = m := by
  obtain ⟨hregisters, hmemory⟩ := step_eq_runInstruction hstall hpending m
  rw [hregisters, hmemory, runInstruction_memory hopcode (i := ⟨.nop, .implied, 2, 0⟩) rfl]
  exact ⟨rfl, rfl⟩

/-! ## The beginning of a handler -/

/-- The processor when a handler begins: the latched interrupt is taken, and no
instruction of the handler was carried out. -/
def taken {σ : Type} [AddressSpace σ] (c : Processor) (s : σ) : Processor × σ :=
  let (cost, r, s) := takeInterrupt c.pending c.registers s
  ({ c with registers := r, cycles := c.cycles + cost.toUInt64, pending := none }, s)

/-- A step takes the interrupt, and is then the step of a processor that has taken it. -/
theorem step_taken {σ : Type} [AddressSpace σ] (hstall : c.stall = 0) (s : σ) :
    (c.step s).2 = ((c.taken s).1.step (c.taken s).2).2 := by
  have hruns : ¬ c.stall > 0 := by
    rw [hstall]
    decide
  have hentry := takeInterrupt_cost_le c.pending c.registers s
  have hnothing (r : Registers) (s : σ) : takeInterrupt none r s = (0, r, s) := rfl
  simp only [step, taken, if_neg hruns, hnothing]
  generalize takeInterrupt c.pending c.registers s = entered at *
  obtain ⟨entry, r, s'⟩ := entered
  have hcost := (runInstruction_cost r s').2
  generalize runInstruction r s' = result at *
  obtain ⟨cost, r', s''⟩ := result
  -- both costs are small, so their sum is the same in 32 and in 64 bits
  have hsum : (entry + cost).toUInt64 = entry.toUInt64 + (0 + cost).toUInt64 := by
    rw [← UInt64.toNat_inj]
    simp only [UInt32.toNat_toUInt64, UInt64.toNat_add, UInt32.toNat_add, UInt32.reduceToNat] at *
    omega
  simp only [hsum, UInt64.add_assoc]

end Processor

/-! ## Ways to a handler -/

/-- What puts a way back on the stack. -/
inductive Entry where
  | nmi
  | irq
  | brk
  | jsr
deriving DecidableEq

namespace Entry

/-- Whether the entry is an interrupt. -/
def interrupts : Entry → Bool
  | nmi | irq => true
  | brk | jsr => false

/-- When an entry happens in the next step. -/
def Occurs (c : Processor) (m : FlatMemory) : Entry → Prop
  | nmi => c.pending = some .nmi
  | irq => c.pending = some .irq ∧ c.registers.p.has Status.interruptDisable = false
  | brk => c.pending = none ∧ m.read c.registers.pc.toNat = 0x00
  | jsr => c.pending = none ∧ m.read c.registers.pc.toNat = 0x20

/-- The processor and the memory just after the entry. -/
def after (c : Processor) (m : FlatMemory) : Entry → Processor × FlatMemory
  | nmi | irq => c.taken m
  | brk | jsr => (c.step m).2

/-- The number of bytes that the entry pushes. -/
def size : Entry → Nat
  | jsr => 2
  | _ => 3

/-- The opcode that takes the way back. -/
def returnOpcode : Entry → UInt8
  | jsr => 0x60
  | _ => 0x40

/-- Where the way back leads. -/
def back (pc : UInt16) : Entry → UInt16
  | nmi | irq => pc
  | brk => pc + 2
  | jsr => pc + 3

end Entry

/-- What may happen while a handler runs. -/
inductive HandlerEvent where
  /-- A step of the processor, be it of the handler, of another one, or a cycle of waiting. -/
  | runs
  | requests (i : Interrupt)
  | waits (cycles : UInt32)

/-- The processor and the memory behind an event. -/
def happen (state : Processor × FlatMemory) : HandlerEvent → Processor × FlatMemory
  | .runs => (state.1.step state.2).2
  | .requests i => (state.1.request i, state.2)
  | .waits cycles => (state.1.addStall cycles, state.2)

/-- The processor and the memory behind all that happens while a handler runs. -/
def handle (events : List HandlerEvent) (state : Processor × FlatMemory) : Processor × FlatMemory :=
  events.foldl happen state

/-- The handler is about to take the way back: it finds the stack as it was just after
the entry. -/
structure AtReturn (entry : Entry) (c : Processor) (start finish : Processor × FlatMemory) :
    Prop where
  stall : finish.1.stall = 0
  pending : finish.1.pending = none
  opcode : finish.2.read finish.1.registers.pc.toNat = entry.returnOpcode
  pointer : finish.1.registers.s = start.1.registers.s
  pushed : ∀ k < entry.size,
    cell finish.2 (c.registers.s - UInt8.ofNat k) = cell start.2 (c.registers.s - UInt8.ofNat k)

namespace Entry

variable {c : Processor} {m : FlatMemory}

/-- An interrupt is entered like any handler. -/
theorem taken_eq {vector : UInt16} (c : Processor) (m : FlatMemory)
    (htake : takeInterrupt c.pending c.registers m =
      (entryCycles, enterHandler vector c.registers m)) :
    (c.taken m).1.registers = (enterHandler vector c.registers m).1 ∧
      (c.taken m).2 = (enterHandler vector c.registers m).2 := by
  unfold taken
  rw [htake]
  exact ⟨rfl, rfl⟩

/-- Interrupts and breaks push the way back and the status. -/
theorem after_handler {entry : Entry} (hstall : c.stall = 0) (hoccurs : entry.Occurs c m)
    (hhandler : entry ≠ .jsr) :
    (entry.after c m).1.registers.s = c.registers.s - 3 ∧
      cell (entry.after c m).2 c.registers.s = Word.high (entry.back c.registers.pc) ∧
      cell (entry.after c m).2 (c.registers.s - 1) = Word.low (entry.back c.registers.pc) ∧
      cell (entry.after c m).2 (c.registers.s - 2) = c.registers.p.pushed := by
  cases entry with
  | nmi =>
      have htake : takeInterrupt c.pending c.registers m =
          (entryCycles, enterHandler nmiVector c.registers m) := by
        rw [show c.pending = _ from hoccurs]
        rfl
      obtain ⟨hregisters, hmemory⟩ := taken_eq c m htake
      simp only [after, back, hregisters, hmemory]
      exact ⟨pointer_enterHandler _ _ _, cell_enterHandler _ _ _⟩
  | irq =>
      have htake : takeInterrupt c.pending c.registers m =
          (entryCycles, enterHandler requestVector c.registers m) := by
        rw [hoccurs.1]
        exact if_neg (hoccurs.2 ▸ Bool.false_ne_true)
      obtain ⟨hregisters, hmemory⟩ := taken_eq c m htake
      simp only [after, back, hregisters, hmemory]
      exact ⟨pointer_enterHandler _ _ _, cell_enterHandler _ _ _⟩
  | brk =>
      obtain ⟨hregisters, hmemory⟩ := step_brk hstall hoccurs.1 hoccurs.2
      simp only [after, back, hregisters, hmemory]
      exact ⟨pointer_enterHandler _ _ _, cell_enterHandler _ _ _⟩
  | jsr => exact absurd rfl hhandler

/-- A call pushes the address in front of the way back. -/
theorem after_call (hstall : c.stall = 0) (hoccurs : Entry.jsr.Occurs c m) :
    (Entry.jsr.after c m).1.registers.s = c.registers.s - 2 ∧
      cell (Entry.jsr.after c m).2 c.registers.s =
        Word.high (Entry.jsr.back c.registers.pc - 1) ∧
      cell (Entry.jsr.after c m).2 (c.registers.s - 1) =
        Word.low (Entry.jsr.back c.registers.pc - 1) := by
  obtain ⟨hpointer, hmemory⟩ := step_jsr hstall hoccurs.1 hoccurs.2
  exact ⟨hpointer, hmemory ▸ cell_pushWord _ _ _⟩

end Entry

/-- **Handlers are transparent.** An interrupt, a break or a call pushes a way back. When,
after whatever happened, the handler takes it with the stack as it was just after the
entry, the stack pointer and the program counter are what they would be without the
handler, and so is the status, but for a call. An interrupt is entered within the step
that carries out the first instruction of its handler. -/
theorem return_transparent (entry : Entry) (c : Processor) (m : FlatMemory)
    (events : List HandlerEvent) (hsettled : c.registers.p.Settled) (hstall : c.stall = 0)
    (hoccurs : entry.Occurs c m)
    (hreturn : AtReturn entry c (entry.after c m) (handle events (entry.after c m))) :
    let finished := handle events (entry.after c m)
    let r := (finished.1.step finished.2).2.1.registers
    r.s = c.registers.s ∧ r.pc = entry.back c.registers.pc ∧
      (entry ≠ .jsr → r.p = c.registers.p) ∧
      (entry.interrupts = true →
        (c.step m).2 = ((entry.after c m).1.step (entry.after c m).2).2) := by
  have hentered (hinterrupt : entry.interrupts = true) :
      (c.step m).2 = ((entry.after c m).1.step (entry.after c m).2).2 := by
    cases entry with
    | nmi | irq => exact step_taken hstall m
    | brk | jsr => nomatch hinterrupt
  generalize handle events (entry.after c m) = finished at *
  obtain ⟨hstall', hpending', hopcode, hpointer, hpushed⟩ := hreturn
  have hnow : c.registers.s - UInt8.ofNat 0 = c.registers.s := UInt8.sub_zero _
  by_cases hcall : entry = .jsr
  · subst hcall
    obtain ⟨hs, hhigh, hlow⟩ := Entry.after_call hstall hoccurs
    have hhigh' := hpushed 0 (by decide)
    have hlow' := hpushed 1 (by decide)
    rw [hnow, hhigh] at hhigh'
    obtain ⟨hpointer', hback⟩ := step_rts_restores hstall' hpending' hopcode
      (hpointer.trans hs) hhigh' (hlow'.trans hlow)
    exact ⟨hpointer', hback, fun hne => absurd rfl hne, hentered⟩
  · obtain ⟨hs, hhigh, hlow, hstatus⟩ := Entry.after_handler hstall hoccurs hcall
    have hsize : entry.size = 3 ∧ entry.returnOpcode = 0x40 := by
      cases entry with
      | nmi | irq | brk => exact ⟨rfl, rfl⟩
      | jsr => exact absurd rfl hcall
    rw [hsize.1] at hpushed
    have hhigh' := hpushed 0 (by decide)
    have hlow' := hpushed 1 (by decide)
    have hstatus' := hpushed 2 (by decide)
    rw [hnow, hhigh] at hhigh'
    obtain ⟨hpointer', hback, hp⟩ := step_rti_restores hstall' hpending'
      (hopcode.trans hsize.2) (hpointer.trans hs) hhigh' (hlow'.trans hlow)
      (hstatus'.trans hstatus) hsettled
    exact ⟨hpointer', hback, fun _ => hp, hentered⟩

/-- An NMI is latched right after power-on. -/
def interrupted : Processor := { powerOff with pending := some .nmi }

/-- Memory that holds the end of a handler throughout, but for one operation that does
nothing where the vectors lead. -/
def idleHandler : FlatMemory := (Memory.filled 0x40).write 0x4040 0xEA

theorem enterHandler_idleHandler :
    let begun := enterHandler nmiVector interrupted.registers idleHandler
    begun.2.read begun.1.pc.toNat = 0xEA ∧ begun.2.read (begun.1.pc + 1).toNat = 0x40 := by
  have hvector : Word.ofBytes 0x40 0x40 = 0x4040 := by decide
  -- the handler and its vector lie outside the page of the stack
  simp [idleHandler, enterHandler, pushWord, pushByte, Registers.push, Registers.stackAddress,
    AddressSpace.readWord, AddressSpace.read, AddressSpace.write, Memory.read_write,
    interrupted, powerOff, Registers.powerOn, nmiVector, hvector]

/-- An operation that does nothing leaves the stack as it is. -/
theorem atReturn_nop {entry : Entry} {c : Processor} {start : Processor × FlatMemory}
    (hstall : start.1.stall = 0) (hpending : start.1.pending = none)
    (hidle : start.2.read start.1.registers.pc.toNat = 0xEA)
    (hend : start.2.read (start.1.registers.pc + 1).toNat = entry.returnOpcode) :
    AtReturn entry c start (handle [.runs] start) := by
  obtain ⟨hstall', hpending'⟩ := ready_step hstall start.2
  obtain ⟨hregisters, hmemory⟩ := step_nop hstall hpending hidle
  have hfinish : handle [.runs] start = (start.1.step start.2).2 := rfl
  rw [hfinish]
  refine ⟨hstall', hpending', ?_, ?_, ?_⟩
  · rw [hregisters, hmemory]
    exact hend
  · rw [hregisters]
  · intro k _
    rw [hmemory]

/-- A handler of two instructions. -/
theorem return_transparent_idle :
    interrupted.registers.p.Settled ∧ Entry.nmi.Occurs interrupted idleHandler ∧
      AtReturn .nmi interrupted (Entry.nmi.after interrupted idleHandler)
        (handle [.runs] (Entry.nmi.after interrupted idleHandler)) ∧
      ((handle [.runs] (Entry.nmi.after interrupted idleHandler)).1.step
        (handle [.runs] (Entry.nmi.after interrupted idleHandler)).2).2.1.registers.p =
          interrupted.registers.p := by
  obtain ⟨hidle, hend⟩ := enterHandler_idleHandler
  have htake : takeInterrupt interrupted.pending interrupted.registers idleHandler =
      (entryCycles, enterHandler nmiVector interrupted.registers idleHandler) := rfl
  obtain ⟨hregisters, hmemory⟩ := Entry.taken_eq interrupted idleHandler htake
  rw [← hregisters, ← hmemory] at hidle hend
  have hreturn : AtReturn .nmi interrupted (Entry.nmi.after interrupted idleHandler)
      (handle [.runs] (Entry.nmi.after interrupted idleHandler)) :=
    atReturn_nop rfl rfl hidle hend
  have hsettled : interrupted.registers.p.Settled := Status.settled_powerOn
  have hp := (return_transparent .nmi interrupted idleHandler [.runs] hsettled rfl rfl
    hreturn).2.2.1
  exact ⟨hsettled, rfl, hreturn, hp nofun⟩

end Famicom.Cpu
