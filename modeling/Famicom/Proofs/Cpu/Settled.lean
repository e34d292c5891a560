import Famicom.Cpu.Processor

/-!
# The two status bits without a latch

Between steps the status register has `U` set and `B` clear. No instruction can
change that: results and flag instructions touch other bits, and what is pulled
from the stack is settled on its way (`Processor.step_settled`). So restoring a
processor that was saved between steps changes nothing
(`Processor.restore_settled`).
-/

namespace Famicom.Cpu

namespace Status

/-- Bit 5, which has no latch, is set, and bit 4, which exists in copies only, is
clear. -/
def Settled (p : Status) : Prop := p.bits.toBitVec[5] = true ∧ p.bits.toBitVec[4] = false

/-- A mask that holds neither of the two bits. -/
def Latched (mask : UInt8) : Prop :=
  mask.toBitVec[5] = false ∧ mask.toBitVec[4] = false

theorem settled_powerOn : powerOn.Settled := ⟨rfl, rfl⟩

theorem Settled.set {p : Status} (h : p.Settled) {mask : UInt8} (hmask : Latched mask) :
    (p.set mask).Settled := by
  simp [Settled, Status.set, h.1, h.2, hmask.2]

theorem Settled.clear {p : Status} (h : p.Settled) {mask : UInt8} (hmask : Latched mask) :
    (p.clear mask).Settled := by
  simp [Settled, Status.clear, h.1, h.2, hmask.1]

theorem Settled.assign {p : Status} (h : p.Settled) {mask : UInt8} (hmask : Latched mask)
    (condition : Bool) : (p.assign mask condition).Settled := by
  cases condition
  · exact h.clear hmask
  · exact h.set hmask

theorem latched_carry : Latched carry := ⟨rfl, rfl⟩
theorem latched_zero : Latched zero := ⟨rfl, rfl⟩
theorem latched_interruptDisable : Latched interruptDisable := ⟨rfl, rfl⟩
theorem latched_decimal : Latched decimal := ⟨rfl, rfl⟩
theorem latched_overflow : Latched overflow := ⟨rfl, rfl⟩
theorem latched_negative : Latched negative := ⟨rfl, rfl⟩

theorem Settled.withResult {p : Status} (h : p.Settled) (v : UInt8) : (p.withResult v).Settled :=
  (h.assign latched_negative _).assign latched_zero _

theorem settled_pulled (value : UInt8) : (pulled value).Settled := by
  constructor
  · simp [pulled, unused]
  · simp [pulled, unused, breakCopy]

/-- A restore settles the two bits. -/
theorem settled_restored (p : Status) : ((p.set unused).clear breakCopy).Settled := by
  constructor
  · simp [Status.set, Status.clear, unused, breakCopy]
  · simp [Status.set, Status.clear, unused, breakCopy]

/-- A restore leaves a settled status alone. -/
theorem Settled.restored {p : Status} (h : p.Settled) : (p.set unused).clear breakCopy = p := by
  rcases p with ⟨bits⟩
  obtain ⟨hunused, hbreak⟩ := h
  simp only [Status.set, Status.clear, mk.injEq]
  -- bit by bit: the two that are forced have their values already
  apply UInt8.eq_of_toBitVec_eq
  ext i hi
  rcases i with _ | _ | _ | _ | _ | _ | _ | _ | i
  all_goals first
    | omega
    | simp_all [unused, breakCopy]

end Status

open Status

/-! ## Instructions -/

namespace Registers

theorem add_settled {r : Registers} (h : r.p.Settled) (v : UInt8) : (r.add v).p.Settled :=
  ((h.assign latched_carry _).assign latched_overflow _).withResult _

theorem subtract_settled {r : Registers} (h : r.p.Settled) (v : UInt8) :
    (r.subtract v).p.Settled :=
  ((h.assign latched_carry _).assign latched_overflow _).withResult _

theorem compare_settled {r : Registers} (h : r.p.Settled) (register v : UInt8) :
    (r.compare register v).p.Settled :=
  (h.withResult _).assign latched_carry _

theorem testBits_settled {r : Registers} (h : r.p.Settled) (v : UInt8) :
    (r.testBits v).p.Settled :=
  ((h.assign latched_overflow _).assign latched_negative _).assign latched_zero _

end Registers

/-- Whatever the effect does to the registers, a settled status stays settled. -/
def Effect.Settles : Effect → Prop
  | .internal update => ∀ r, r.p.Settled → (update r).p.Settled
  | .reads update | .pulls update => ∀ r v, r.p.Settled → (update r v).p.Settled
  | .modifies update => ∀ p v, p.Settled → (update p v).1.Settled
  | _ => True

/-- The loads, transfers and logical instructions record a result, and the
shifts a carry before it; the rest is a flag instruction or leaves the status
alone. -/
theorem Mnemonic.effect_settles (m : Mnemonic) : m.effect.Settles := by
  cases m with
  | lda | ldx | ldy | and | ora | eor => exact fun r v h => h.withResult _
  | tax | tay | txa | tya | tsx | inx | iny | dex | dey => exact fun r h => h.withResult _
  | txs | nop => exact fun r h => h
  | pla => exact fun r v h => h.withResult _
  | plp => exact fun r v _ => settled_pulled v
  | adc => exact fun r v h => Registers.add_settled h v
  | sbc => exact fun r v h => Registers.subtract_settled h v
  | bit => exact fun r v h => Registers.testBits_settled h v
  | cmp | cpx | cpy => exact fun r v h => Registers.compare_settled h _ v
  | inc | dec => exact fun p v h => h.withResult _
  | asl | lsr | rol | ror => exact fun p v h => (h.assign latched_carry _).withResult _
  | clc => exact fun r h => h.clear latched_carry
  | sec => exact fun r h => h.set latched_carry
  | cli => exact fun r h => h.clear latched_interruptDisable
  | sei => exact fun r h => h.set latched_interruptDisable
  | cld => exact fun r h => h.clear latched_decimal
  | sed => exact fun r h => h.set latched_decimal
  | clv => exact fun r h => h.clear latched_overflow
  | sta | stx | sty | pha | php | jmp | jsr | rts | rti | brk | bcc | bcs | bne | beq | bpl | bmi
  | bvc | bvs => exact trivial
  | ahx | alr | anc | arr | axs | dcp | isc | kil | las | lax | rla | rra | sax | shx | shy | slo
  | sre | tas | xaa => exact fun r h => h

section

variable {σ : Type} [AddressSpace σ]

theorem enterHandler_settled (vector : UInt16) {r : Registers} (h : r.p.Settled) (s : σ) :
    (enterHandler vector r s).1.p.Settled :=
  h.set latched_interruptDisable

theorem execute_settled (i : Instruction) (o : Operand) {r : Registers} (h : r.p.Settled) (s : σ) :
    (execute i o r s).1.p.Settled := by
  have settles := i.mnemonic.effect_settles
  unfold execute
  cases heffect : i.mnemonic.effect with
  | internal update =>
      rw [heffect] at settles
      exact settles r h
  | reads update =>
      rw [heffect] at settles
      exact settles r _ h
  | pulls update =>
      rw [heffect] at settles
      exact settles _ _ h
  | modifies update =>
      rw [heffect] at settles
      by_cases hmode : i.mode = .accumulator
      · simp only [if_pos hmode]
        exact settles _ _ h
      · simp only [if_neg hmode]
        exact settles _ _ h
  | branches taken =>
      by_cases htaken : taken r.p
      · simp only [if_pos htaken]
        exact h
      · simp only [if_neg htaken]
        exact h
  | writes | pushes | jumps | calls | returns => exact h
  | resumes => exact settled_pulled _
  | breaks => exact enterHandler_settled _ h s

/-! ## Steps -/

namespace Processor

theorem takeInterrupt_settled (pending : Option Interrupt) {r : Registers} (h : r.p.Settled)
    (s : σ) : (takeInterrupt pending r s).2.1.p.Settled := by
  rcases pending with _ | interrupt
  · exact h
  cases interrupt with
  | reset => exact h.set latched_interruptDisable
  | nmi => exact enterHandler_settled _ h s
  | irq =>
      simp only [takeInterrupt]
      split
      · exact h
      · exact enterHandler_settled _ h s

theorem runInstruction_settled {r : Registers} (h : r.p.Settled) (s : σ) :
    (runInstruction r s).2.1.p.Settled := by
  simp only [runInstruction]
  refine execute_settled _ _ ?_ _
  exact h

/-- Every step leaves the two bits at their values. -/
theorem step_settled {c : Processor} (h : c.registers.p.Settled) (s : σ) :
    (c.step s).2.1.registers.p.Settled := by
  unfold step
  by_cases hstall : c.stall > 0
  · simp only [if_pos hstall]
    exact h
  · simp only [if_neg hstall]
    exact runInstruction_settled (takeInterrupt_settled c.pending h s) _

theorem powerOn_settled (c : Processor) (s : σ) : (c.powerOn s).1.registers.p.Settled :=
  settled_powerOn

theorem request_registers (c : Processor) (i : Interrupt) :
    (c.request i).registers = c.registers := by
  cases i <;> simp only [request] <;> split <;> rfl

theorem request_cycles (c : Processor) (i : Interrupt) : (c.request i).cycles = c.cycles := by
  cases i <;> simp only [request] <;> split <;> rfl

theorem restore_settled {c : Processor} (h : c.registers.p.Settled) : c.restore = c := by
  rcases c with ⟨r, cycles, stall, pending⟩
  simp only [restore, Settled.restored h]

end Processor

end

end Famicom.Cpu
