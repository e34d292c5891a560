import Famicom.Proofs.Cpu.Checked

/-!
# How long a step takes

An instruction takes two to eight cycles: its base cost, and what leaving a page or
branching adds to it. Entering a handler takes seven more, and a step that waits
takes one. So a step takes one to fifteen cycles (`Processor.step_cost`).
-/

namespace Famicom.Cpu

/-- Whether the effect is that of a branch, the only one with a cost of its own. -/
def Effect.isBranch : Effect → Bool
  | .branches _ => true
  | _ => false

/-- The greatest cost of an instruction, in cycles. -/
def Instruction.maxCost (i : Instruction) : Nat :=
  i.cycles.toNat + i.pageCycles.toNat + if i.mnemonic.effect.isBranch then 2 else 0

/-- What the table says of every opcode. -/
theorem decode_cost (opcode : UInt8) :
    2 ≤ (Instruction.decode opcode).cycles.toNat ∧ (Instruction.decode opcode).maxCost ≤ 8 := by
  have table : ∀ i ∈ decodeTable.toList, 2 ≤ i.cycles.toNat ∧ i.maxCost ≤ 8 := by
    decide +kernel
  exact table _ (Vector.mem_toList_iff.2 (Vector.getElem_mem opcode.toNat_lt))

theorem branchCycles_cost (i : Instruction) (o : Operand) (r : Registers) :
    (branchCycles i o r).toNat ≤ if i.mnemonic.effect.isBranch then 2 else 0 := by
  unfold branchCycles
  cases i.mnemonic.effect with
  | branches taken =>
      show (if taken r.p = true then if Word.samePage r.pc o.address = true then 1 else 2
        else 0 : UInt32).toNat ≤ 2
      split
      · split <;> decide
      · decide
  | _ => exact Nat.le_refl 0

variable {σ : Type} [AddressSpace σ]

namespace Processor

/-- An instruction takes two to eight cycles. -/
theorem runInstruction_cost (r : Registers) (s : σ) :
    2 ≤ (runInstruction r s).1.toNat ∧ (runInstruction r s).1.toNat ≤ 8 := by
  obtain ⟨hlow, hhigh⟩ := decode_cost (AddressSpace.read r.pc s).1
  simp only [runInstruction]
  generalize Instruction.decode (AddressSpace.read r.pc s).1 = i at hlow hhigh ⊢
  generalize (Operand.resolve i.mode r (AddressSpace.read r.pc s).2).1 = o
  have hbranch := branchCycles_cost i o { r with pc := r.pc + i.size }
  have hpaging : (if o.pageCrossed then i.pageCycles else 0).toNat ≤ i.pageCycles.toNat := by
    split
    · exact Nat.le_refl _
    · exact Nat.zero_le _
  unfold Instruction.maxCost at hhigh
  simp only [UInt32.toNat_add, UInt8.toNat_toUInt32]
  omega

/-- **A step takes one to fifteen cycles.** -/
theorem step_cost (c : Processor) (s : σ) :
    1 ≤ (c.step s).1.toNat ∧ (c.step s).1.toNat ≤ 15 := by
  by_cases hstall : c.stall > 0
  · simp only [step, if_pos hstall]
    decide
  · simp only [step, if_neg hstall]
    have hentry := takeInterrupt_cost_le c.pending c.registers s
    generalize takeInterrupt c.pending c.registers s = entered at hentry ⊢
    obtain ⟨entry, r, s'⟩ := entered
    obtain ⟨hlow, hhigh⟩ := runInstruction_cost r s'
    simp only [UInt32.toNat_add] at hentry ⊢
    omega

end Processor

end Famicom.Cpu
