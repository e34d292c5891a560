import Famicom.Cpu.Processor

/-!
# What the processor sees of an address space

The processor knows an address space by its reads and writes only. A map between
address spaces that agrees with them is a `Morphism`, and everything that the
processor does commutes with it:

* **steps** — a step on the image of a space is the image of the step
  (`Morphism.step`), with the same registers and the same number of cycles;
* **invariants** — what every access preserves, a step preserves
  (`step_invariant`): the spaces with an invariant are an address space of their
  own, and forgetting the invariant is a morphism.
-/

namespace Famicom.Cpu

open AddressSpace Operand Processor

/-- A map between address spaces that agrees with reads and writes. -/
structure Morphism {σ τ : Type} [AddressSpace σ] [AddressSpace τ] (φ : σ → τ) : Prop where
  read : ∀ address s,
    AddressSpace.read address (φ s) =
      ((AddressSpace.read address s).1, φ (AddressSpace.read address s).2)
  write : ∀ address value s,
    AddressSpace.write address value (φ s) = φ (AddressSpace.write address value s)

namespace Morphism

variable {σ τ : Type} [AddressSpace σ] [AddressSpace τ] {φ : σ → τ}

theorem readWord (h : Morphism φ) (address : UInt16) (s : σ) :
    readWord address (φ s) = ((readWord address s).1, φ (readWord address s).2) := by
  unfold AddressSpace.readWord
  simp only [h.read]

theorem readWordInPage (h : Morphism φ) (address : UInt16) (s : σ) :
    readWordInPage address (φ s) =
      ((readWordInPage address s).1, φ (readWordInPage address s).2) := by
  unfold AddressSpace.readWordInPage
  simp only [h.read]

theorem resolve (h : Morphism φ) (mode : Mode) (r : Registers) (s : σ) :
    resolve mode r (φ s) = ((resolve mode r s).1, φ (resolve mode r s).2) := by
  cases mode
  case implied | accumulator | immediate => rfl
  all_goals simp only [Operand.resolve, h.read, h.readWord, h.readWordInPage]

/-! ## The stack -/

theorem pushByte (h : Morphism φ) (v : UInt8) (r : Registers) (s : σ) :
    pushByte v r (φ s) = ((pushByte v r s).1, φ (pushByte v r s).2) := by
  unfold Cpu.pushByte
  simp only [h.write]

theorem pushWord (h : Morphism φ) (v : UInt16) (r : Registers) (s : σ) :
    pushWord v r (φ s) = ((pushWord v r s).1, φ (pushWord v r s).2) := by
  unfold Cpu.pushWord
  simp only [h.pushByte]

theorem pullByte (h : Morphism φ) (r : Registers) (s : σ) :
    pullByte r (φ s) = ((pullByte r s).1, (pullByte r s).2.1, φ (pullByte r s).2.2) := by
  unfold Cpu.pullByte
  simp only [h.read]

theorem pullWord (h : Morphism φ) (r : Registers) (s : σ) :
    pullWord r (φ s) = ((pullWord r s).1, (pullWord r s).2.1, φ (pullWord r s).2.2) := by
  unfold Cpu.pullWord
  simp only [h.pullByte]

theorem enterHandler (h : Morphism φ) (vector : UInt16) (r : Registers) (s : σ) :
    enterHandler vector r (φ s) =
      ((enterHandler vector r s).1, φ (enterHandler vector r s).2) := by
  unfold Cpu.enterHandler
  simp only [h.pushWord, h.pushByte, h.readWord]

/-! ## Instructions -/

theorem execute (h : Morphism φ) (i : Instruction) (o : Operand) (r : Registers) (s : σ) :
    execute i o r (φ s) = ((execute i o r s).1, φ (execute i o r s).2) := by
  unfold Cpu.execute
  cases i.mnemonic.effect with
  | internal | branches | jumps => rfl
  | reads => simp only [h.read]
  | writes => simp only [h.write]
  | modifies update =>
      -- the accumulator is not part of the space
      by_cases hmode : i.mode = .accumulator
      · simp only [hmode, if_true]
      · simp only [hmode, if_false, h.read, h.write]
  | pushes => simp only [h.pushByte]
  | pulls => simp only [h.pullByte]
  | calls => simp only [h.pushWord]
  | returns => simp only [h.pullWord]
  | resumes => simp only [h.pullByte, h.pullWord]
  | breaks => simp only [h.enterHandler]

theorem takeInterrupt (h : Morphism φ) (pending : Option Interrupt) (r : Registers) (s : σ) :
    takeInterrupt pending r (φ s) =
      ((takeInterrupt pending r s).1, (takeInterrupt pending r s).2.1,
        φ (takeInterrupt pending r s).2.2) := by
  rcases pending with _ | interrupt
  · rfl
  cases interrupt with
  | reset => simp only [Processor.takeInterrupt, enterReset, h.readWord]
  | nmi => simp only [Processor.takeInterrupt, h.enterHandler]
  | irq =>
      simp only [Processor.takeInterrupt, h.enterHandler]
      split <;> rfl

theorem runInstruction (h : Morphism φ) (r : Registers) (s : σ) :
    runInstruction r (φ s) =
      ((runInstruction r s).1, (runInstruction r s).2.1, φ (runInstruction r s).2.2) := by
  simp only [Processor.runInstruction, h.read, h.resolve, h.execute]

theorem powerOn (h : Morphism φ) (c : Processor) (s : σ) :
    c.powerOn (φ s) = ((c.powerOn s).1, φ (c.powerOn s).2) := by
  simp only [Processor.powerOn, h.readWord]

/-- A step on the image of a space is the image of the step. -/
theorem step (h : Morphism φ) (c : Processor) (s : σ) :
    c.step (φ s) = ((c.step s).1, (c.step s).2.1, φ (c.step s).2.2) := by
  by_cases hstall : c.stall > 0
  · simp only [Processor.step, if_pos hstall]
  · simp only [Processor.step, if_neg hstall, h.takeInterrupt, h.runInstruction]

end Morphism

/-! ## Invariants -/

section Invariant

variable {σ : Type} [AddressSpace σ]

/-- A property of a space that every access preserves. -/
structure Invariant (P : σ → Prop) : Prop where
  read : ∀ address s, P s → P (AddressSpace.read address s).2
  write : ∀ address value s, P s → P (AddressSpace.write address value s)

/-- The spaces with an invariant. -/
@[reducible] def Invariant.space {P : σ → Prop} (h : Invariant P) :
    AddressSpace { s : σ // P s } where
  read address s :=
    let result := AddressSpace.read address s.val
    (result.1, ⟨result.2, h.read address s.val s.property⟩)
  write address value s :=
    ⟨AddressSpace.write address value s.val, h.write address value s.val s.property⟩

theorem Invariant.forget {P : σ → Prop} (h : Invariant P) :
    @Morphism _ _ h.space _ (Subtype.val : { s : σ // P s } → σ) :=
  let _ := h.space
  { read := fun _ _ => rfl, write := fun _ _ _ => rfl }

/-- A step of the processor preserves what each of its accesses preserves. -/
theorem step_invariant {P : σ → Prop} (h : Invariant P) (c : Processor) {s : σ} (hs : P s) :
    P (c.step s).2.2 := by
  -- the step in the space of states with the property, and the property forgotten
  let _ := h.space
  have := h.forget.step c ⟨s, hs⟩
  rw [this]
  exact (c.step (⟨s, hs⟩ : { s : σ // P s })).2.2.property

theorem powerOn_invariant {P : σ → Prop} (h : Invariant P) (c : Processor) {s : σ} (hs : P s) :
    P (c.powerOn s).2 := by
  let _ := h.space
  have := h.forget.powerOn c ⟨s, hs⟩
  rw [this]
  exact (c.powerOn (⟨s, hs⟩ : { s : σ // P s })).2.property

end Invariant

end Famicom.Cpu
