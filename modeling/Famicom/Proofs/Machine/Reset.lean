import Famicom.Proofs.Machine.Requests

/-!
# When a reset is taken

The reset button latches an interrupt, and the processor looks at its latch when a
step begins that does not wait. A transfer to sprite memory makes it wait for
hundreds of steps, and the button does not end the waiting.

* **waiting** — nothing that goes on in a waiting step replaces the reset, changes
  a register or makes the processor wait any longer: the delta channel was stopped
  with the button (`Awaiting.run`);
* **entering** — the step behind the last cycle of waiting loads the program counter
  from the vector and carries out the first instruction (`Awaiting.takes`).
-/

namespace Famicom.Machine

open Audio Cartridge Cpu Video

variable {m : Machine} {p : Processor} {byte : UInt16 → UInt8}

/-! ## Waiting -/

/-- A processor with a latched reset is part of a machine in which nothing will make
it wait longer, and that shows it this program. -/
structure Awaiting (p : Processor) (byte : UInt16 → UInt8) (m : Machine) : Prop where
  cpu : m.cpu = p
  latched : p.pending = some .reset
  idle : m.bus.transferPage = none
  stopped : m.bus.sound.delta.remaining = 0
  program : ∀ address, m.bus.board.read address = byte address

namespace Awaiting

/-- The channels are silent, so that no sample is fetched. -/
theorem tickSound (h : Awaiting p byte m) : Awaiting p byte m.tickSound := by
  rw [tickSound_stopped h.stopped]
  exact ⟨h.cpu, h.latched, h.idle, (SoundUnit.remaining_tick _).trans h.stopped, h.program⟩

theorem catchUpSound (h : Awaiting p byte m) (cycles : Nat) :
    Awaiting p byte (m.catchUpSound cycles) := by
  induction cycles generalizing m with
  | zero => exact h
  | succ n ih => exact ih h.tickSound

/-- No interrupt of the picture unit replaces a reset. -/
theorem tickPicture (h : Awaiting p byte m) : Awaiting p byte m.tickPicture := by
  have hrequest : m.cpu.request .nmi = m.cpu := by
    rw [h.cpu]
    exact if_pos h.latched
  rw [tickPicture_eq]
  refine ⟨?_, h.latched, h.idle, h.stopped, ?_⟩
  · simp only [hrequest, ite_self]
    exact h.cpu
  · intro address
    exact (m.bus.board.read_step _ _ _ address).trans (h.program address)

theorem catchUpPicture (h : Awaiting p byte m) (dots : Nat) :
    Awaiting p byte (m.catchUpPicture dots) := by
  induction dots generalizing m with
  | zero => exact h
  | succ n ih => exact ih h.tickPicture

/-- No request does. -/
theorem requestIrq (h : Awaiting p byte m) : Awaiting p byte m.requestIrq := by
  obtain ⟨-, heq⟩ | ⟨-, heq⟩ := m.requestIrq_cases
  · have hrequest : m.cpu.request .irq = m.cpu := by
      rw [h.cpu]
      simp [Processor.request, h.latched]
    rw [heq, hrequest]
    exact h
  · rw [heq]
    exact h

/-- A waiting step takes one cycle from what is to be waited for, and nothing else
happens to the processor. -/
theorem run (h : Awaiting p byte m) (hstall : 0 < p.stall) :
    m.run.1 = 1 ∧
      Awaiting { p with stall := p.stall - 1, cycles := p.cycles + 1 } byte m.run.2 := by
  obtain ⟨rfl, hlatched, hidle, hstopped, hprogram⟩ := h
  have hwaits := stepCpu_stalled hstall
  have hstepped : Awaiting { m.cpu with stall := m.cpu.stall - 1, cycles := m.cpu.cycles + 1 }
      byte m.stepCpu.2.transferSprites := by
    have hstill : m.stepCpu.2.bus.transferPage = none := by
      rw [hwaits]
      exact hidle
    rw [transferSprites_idle hstill, hwaits]
    exact ⟨rfl, hlatched, hidle, hstopped, hprogram⟩
  rw [run_eq]
  exact ⟨congrArg Prod.fst hwaits, ((hstepped.catchUpSound _).catchUpPicture _).requestIrq⟩

end Awaiting

/-- The processor after some cycles of waiting. -/
def waited (p : Processor) (k : Nat) : Processor :=
  { p with stall := .ofNat (p.stall.toNat - k), cycles := p.cycles + .ofNat k }

theorem waited_zero (p : Processor) : waited p 0 = p := by
  simp [waited]

theorem toNat_stall_waited (p : Processor) (k : Nat) :
    (waited p k).stall.toNat = p.stall.toNat - k :=
  UInt32.toNat_ofNat_of_lt' (Nat.lt_of_le_of_lt (Nat.sub_le _ _) p.stall.toNat_lt)

/-- One more cycle of waiting. -/
theorem waited_succ {k : Nat} (hk : k < p.stall.toNat) :
    waited p (k + 1) =
      { waited p k with
        stall := (waited p k).stall - 1, cycles := (waited p k).cycles + 1 } := by
  have hstall : (waited p (k + 1)).stall = (waited p k).stall - 1 := by
    have hone : (1 : UInt32) ≤ (waited p k).stall := by
      rw [UInt32.le_iff_toNat_le, toNat_stall_waited]
      show 1 ≤ _
      omega
    rw [← UInt32.toNat_inj, UInt32.toNat_sub_of_le _ _ hone, toNat_stall_waited,
      toNat_stall_waited]
    rfl
  have hcycles : (waited p (k + 1)).cycles = (waited p k).cycles + 1 := by
    simp only [waited, UInt64.ofNat_add, UInt64.add_assoc]
    rfl
  rw [← hstall, ← hcycles]
  rfl

/-- While there is something to be waited for, the machine only waits. -/
theorem awaiting_afterSteps (h : Awaiting p byte m) {k : Nat} (hk : k ≤ p.stall.toNat) :
    Awaiting (waited p k) byte (afterSteps k m) := by
  induction k with
  | zero => exact (waited_zero p).symm ▸ h
  | succ k ih =>
      have hbefore := ih (Nat.le_of_succ_le hk)
      have hstall : 0 < (waited p k).stall := by
        rw [UInt32.lt_iff_toNat_lt, toNat_stall_waited]
        exact Nat.sub_pos_of_lt hk
      rw [waited_succ hk]
      exact (hbefore.run hstall).2

/-- The button stops the delta channel and latches its interrupt. -/
theorem Reachable.awaiting_reset {c : Cartridge} {rate : UInt32} (h : Reachable c rate m) :
    Awaiting (m.cpu.request .reset) m.bus.board.read m.reset :=
  ⟨rfl, rfl, h.transferPage, rfl, fun _ => rfl⟩

/-! ## Entering -/

/-- The registers with which the reset routine begins: three bytes further down on the
stack, with requests disabled, and the program counter from the vector. -/
def resetRegisters (byte : UInt16 → UInt8) (r : Registers) : Registers :=
  { r with
    s := r.s - 3
    p := r.p.set Status.interruptDisable
    pc := Word.ofBytes (byte 0xFFFC) (byte 0xFFFD) }

/-- The vector is read without any effect. -/
theorem enterReset_eq (r : Registers) (b : Bus) :
    Processor.enterReset r b = (resetRegisters b.board.read r, b) := by
  have hlow : AddressSpace.read Processor.resetVector b = (b.board.read 0xFFFC, b) :=
    Bus.read_program (by decide) b
  have hhigh : AddressSpace.read (Processor.resetVector + 1) b = (b.board.read 0xFFFD, b) :=
    Bus.read_program (by decide) b
  simp only [Processor.enterReset, AddressSpace.readWord, hlow, hhigh]
  rfl

/-- The step that takes a reset: the vector is loaded, the first instruction is carried
out, and both are reported. -/
structure TakesReset (byte : UInt16 → UInt8) (r : Registers) (m : Machine) : Prop where
  enters : m.cpu.Enters .reset m.bus
  registers : m.run.2.cpu.registers =
    (Processor.runInstruction (resetRegisters byte r) m.bus).2.1
  cycles : m.run.1 = 7 + (Processor.runInstruction (resetRegisters byte r) m.bus).1
  lower : 9 ≤ m.run.1

theorem Awaiting.takes (h : Awaiting p byte m) (hstall : p.stall = 0) :
    TakesReset byte p.registers m := by
  obtain ⟨rfl, hlatched, -, -, hprogram⟩ := h
  have henters : m.cpu.Enters .reset m.bus := Processor.enters hstall hlatched nofun m.bus
  have hentered : Processor.enterReset m.cpu.registers m.bus =
      (resetRegisters byte m.cpu.registers, m.bus) := by
    rw [enterReset_eq, funext hprogram]
  have hstep : m.cpu.step m.bus = _ := henters.step
  simp only [Processor.stepInto, Processor.enter, hentered] at hstep
  have hcycles : m.run.1 =
      7 + (Processor.runInstruction (resetRegisters byte m.cpu.registers) m.bus).1 :=
    congrArg Prod.fst hstep
  refine ⟨henters, ?_, hcycles, ?_⟩
  · rw [registers_run, stepCpu_eq]
    exact congrArg (·.2.1.registers) hstep
  · obtain ⟨hlow, hhigh⟩ :=
      Processor.runInstruction_cost (resetRegisters byte m.cpu.registers) m.bus
    rw [hcycles, UInt32.le_iff_toNat_le, UInt32.toNat_add]
    simp only [UInt32.reduceToNat]
    omega

/-- **A reset waits for its turn.** Press the reset button of a machine, whatever was
done with it before. As many steps as there are cycles to be waited for do nothing but
wait: each of them reports one cycle and leaves the registers alone. The step behind
them takes the reset: the stack pointer goes down by three, requests are disabled, the
program counter comes from the vector at $FFFC, and the instruction there is carried
out, in nine cycles or more. So it is the first step after the button if and only if
nothing is to be waited for. -/
theorem reset_taken {c : Cartridge} {rate : UInt32} (h : Reachable c rate m) :
    let wait := m.cpu.stall.toNat
    (∀ k < wait, (afterSteps k m.reset).run.1 = 1 ∧
      (afterSteps (k + 1) m.reset).cpu.registers = m.cpu.registers) ∧
    TakesReset m.bus.board.read m.cpu.registers (afterSteps wait m.reset) ∧
    (m.reset.cpu.Enters .reset m.reset.bus ↔ wait = 0) := by
  intro wait
  have hstart := h.awaiting_reset
  refine ⟨?_, ?_, ?_⟩
  · intro k hk
    have hbefore := awaiting_afterSteps hstart (Nat.le_of_lt hk)
    have hbehind := awaiting_afterSteps hstart (Nat.succ_le_of_lt hk)
    have hstall : 0 < (waited (m.cpu.request .reset) k).stall := by
      rw [UInt32.lt_iff_toNat_lt, toNat_stall_waited]
      exact Nat.sub_pos_of_lt hk
    have hregisters := congrArg Processor.registers hbehind.cpu
    exact ⟨(hbefore.run hstall).1, hregisters⟩
  · have hwaited := awaiting_afterSteps hstart (Nat.le_refl wait)
    refine hwaited.takes ?_
    rw [← UInt32.toNat_inj, toNat_stall_waited]
    exact Nat.sub_self wait
  · constructor
    · intro henters
      exact congrArg UInt32.toNat henters.stall
    · intro hnone
      have hstall : m.reset.cpu.stall = 0 := UInt32.toNat_inj.1 hnone
      exact Processor.enters hstall hstart.latched nofun m.reset.bus

/-- A program of four bytes, over and over. Its vector is $8D01, where it writes to
$4014 and so asks for a transfer to sprite memory. -/
def transferring : Cartridge :=
  { Cartridge.minimal .linear with program := ⟨#[0x01, 0x8D, 0x14, 0x40], by decide⟩ }

/-- The button is pressed after the first instruction of that program. -/
theorem reset_taken_transfer :
    let m := (perform .run (ofCartridge transferring 48000)).2
    Reachable transferring 48000 m ∧ m.cpu.stall.toNat = 513 ∧
      TakesReset m.bus.board.read m.cpu.registers (afterSteps 513 m.reset) := by
  intro m
  have h : Reachable transferring 48000 m := .perform .run .cartridge
  have hwait : m.cpu.stall.toNat = 513 := by decide +kernel
  have htaken := (reset_taken h).2.1
  rw [hwait] at htaken
  exact ⟨h, hwait, htaken⟩

/-- The step that follows the button there waits for a cycle, and leaves the stack
pointer and the program counter where they were. -/
theorem reset_not_at_once :
    let m := (perform .run (ofCartridge transferring 48000)).2
    m.reset.run.1 = 1 ∧ m.reset.run.2.cpu.registers = m.cpu.registers := by
  decide +kernel

end Famicom.Machine
