import Famicom.Proofs.Audio.FrameClocks
import Famicom.Proofs.Machine.Interleaving
import Famicom.Proofs.Machine.Time
import Famicom.Proofs.Video.Interrupt

/-!
# A program that waits for a request

A program enables requests and then jumps to where it is. Nothing but the frame
sequencer interrupts it, and that in a cycle known in advance:

* **nothing else** — no dot, no board and no transfer has a say while the program
  asks for nothing (`Undisturbed.run`);
* **rounds** — so the processor goes round in its loop, three cycles at a time, until
  the shorter sequence ends for the first time (`undisturbed_rounds`).
-/

namespace Famicom.Audio.Sequencer

/-- The sequencer this many cycles behind power-on, if nobody looked at it or wrote
to it: the first sequence that ends leaves the request up. -/
structure Untouched (s : Sequencer) (cycle : Nat) : Prop where
  place : s.AtCycle cycle
  mode : s.mode = .four
  inhibit : s.inhibit = false
  irq : s.irq = true ↔ 29829 ≤ cycle

theorem untouched_powerOn : powerOn.Untouched 0 :=
  ⟨⟨by decide, by decide, by decide, by decide⟩, rfl, rfl, by decide⟩

theorem Untouched.next {s : Sequencer} {cycle : Nat} (h : s.Untouched cycle) :
    s.next.2.Untouched (cycle + 1) := by
  refine ⟨h.place.next, s.mode_next.trans h.mode, s.inhibit_next.trans h.inhibit, ?_⟩
  rw [h.place.irq_next, h.irq, and_iff_right h.mode, and_iff_right h.inhibit]
  constructor
  · rintro (hbefore | hends)
    · exact Nat.le_succ_of_le hbefore
    · exact Nat.le_of_dvd (Nat.succ_pos cycle) hends
  · intro hle
    obtain heq | hlt := Nat.eq_or_lt_of_le hle
    · exact .inr (heq ▸ Nat.dvd_refl _)
    · exact .inl (Nat.le_of_lt_succ hlt)

end Famicom.Audio.Sequencer

namespace Famicom.Video

/-- Nobody wants the blanking interrupt, and none is left from before. -/
structure NmiLine.Off (n : NmiLine) : Prop where
  output : n.output = false
  pending : n.pending = false

theorem NmiLine.Off.advance {n : NmiLine} (h : n.Off) : n.advance.Off := by
  refine ⟨n.fields_advance.1.trans h.output, ?_⟩
  unfold NmiLine.advance
  split
  · exact h.pending
  · simp [level, h.output, h.pending]

theorem NmiLine.Off.atPlace {n : NmiLine} (h : n.Off) (beam : Beam) : (n.atPlace beam).Off := by
  unfold NmiLine.atPlace
  split
  · split
    · exact ⟨h.output, h.pending⟩
    split
    · exact ⟨h.output, h.pending⟩
    · exact h
  · exact h

/-- A dot does not interrupt then. -/
theorem PictureUnit.off_tick {p : PictureUnit} (h : p.nmi.Off) (b : Cartridge.Board) :
    (p.tick b).takeNmi.1 = false ∧ (p.tick b).takeNmi.2.nmi.Off := by
  have hoff : (p.tick b).nmi.Off := by
    rw [nmi_tick]
    exact h.advance.atPlace _
  rw [takeNmi_fst, nmi_takeNmi]
  exact ⟨hoff.pending, hoff.output, rfl⟩

end Famicom.Video

namespace Famicom.Machine

open Audio Cartridge Cpu Video

variable {c : Cartridge} {p : Processor} {cycle : Nat} {m : Machine}

/-! ## Nothing else -/

/-- A machine with this processor, and a board that never requests anything, so many
cycles behind power-on. The program has asked neither for the blanking interrupt nor
for a transfer nor for samples. -/
structure Undisturbed (c : Cartridge) (p : Processor) (cycle : Nat) (m : Machine) : Prop where
  cpu : m.cpu = p
  board : m.bus.board = ⟨c, .linear⟩
  idle : m.bus.transferPage = none
  nmi : m.bus.picture.nmi.Off
  stopped : m.bus.sound.delta.remaining = 0
  sequencer : m.bus.sound.sequencer.Untouched cycle

/-- While the delta channel is stopped, a cycle of sound concerns the sound unit alone. -/
theorem tickSound_stopped (h : m.bus.sound.delta.remaining = 0) :
    m.tickSound = { m with bus := { m.bus with sound := m.bus.sound.tick } } := by
  have hstopped : m.bus.sound.tick.delta.remaining = 0 :=
    (SoundUnit.remaining_tick m.bus.sound).trans h
  simp only [tickSound, fetchSample, SoundUnit.request_stopped hstopped]

namespace Undisturbed

theorem tickSound (h : Undisturbed c p cycle m) : Undisturbed c p (cycle + 1) m.tickSound := by
  rw [tickSound_stopped h.stopped]
  refine ⟨h.cpu, h.board, h.idle, h.nmi, (SoundUnit.remaining_tick _).trans h.stopped, ?_⟩
  show m.bus.sound.tick.sequencer.Untouched (cycle + 1)
  rw [SoundUnit.sequencer_tick]
  exact h.sequencer.next

theorem catchUpSound (h : Undisturbed c p cycle m) (cycles : Nat) :
    Undisturbed c p (cycle + cycles) (m.catchUpSound cycles) := by
  induction cycles generalizing m cycle with
  | zero => exact h
  | succ n ih =>
      have hrest := ih h.tickSound
      rw [Nat.add_assoc, Nat.add_comm 1] at hrest
      exact hrest

theorem tickPicture (h : Undisturbed c p cycle m) : Undisturbed c p cycle m.tickPicture := by
  obtain ⟨hquiet, hoff⟩ := PictureUnit.off_tick h.nmi m.bus.board
  rw [tickPicture_eq]
  simp only [hquiet, Bool.false_eq_true, if_false]
  refine ⟨h.cpu, ?_, h.idle, hoff, h.stopped, h.sequencer⟩
  rw [h.board]
  exact ite_self _

theorem catchUpPicture (h : Undisturbed c p cycle m) (dots : Nat) :
    Undisturbed c p cycle (m.catchUpPicture dots) := by
  induction dots generalizing m with
  | zero => exact h
  | succ n ih => exact ih h.tickPicture

theorem requestIrq (h : Undisturbed c p cycle m) :
    Undisturbed c (if 29829 ≤ cycle then p.request .irq else p) cycle m.requestIrq := by
  have hboard : m.bus.board.request = false := by
    rw [h.board]
    rfl
  simp only [Machine.requestIrq, hboard, Bool.or_false, SoundUnit.irq, h.sequencer.irq]
  split
  · exact ⟨congrArg (·.request .irq) h.cpu, h.board, h.idle, h.nmi, h.stopped, h.sequencer⟩
  · exact h

/-- A step of the processor that leaves the bus alone is followed by nothing but the
request of the sequencer. -/
theorem run {q : Processor} {cost : UInt32} (h : Undisturbed c p cycle m)
    (hstep : p.step m.bus = (cost, q, m.bus)) :
    Undisturbed c (if 29829 ≤ cycle + cost.toNat then q.request .irq else q)
      (cycle + cost.toNat) m.run.2 := by
  have hstepped : m.stepCpu = (cost, { m with cpu := q }) := by
    rw [stepCpu_eq, h.cpu, hstep]
  have hbefore : Undisturbed c q cycle { m with cpu := q } :=
    ⟨rfl, h.board, h.idle, h.nmi, h.stopped, h.sequencer⟩
  rw [run_eq, hstepped]
  simp only []
  rw [transferSprites_idle hbefore.idle]
  exact ((hbefore.catchUpSound _).catchUpPicture _).requestIrq

end Undisturbed

/-! ## Rounds -/

/-- A program of two instructions: `CLI` at $8000, where it starts, and behind it a jump
that leads to itself. The handler of requests is the program once more. -/
def looping : Cartridge :=
  { Cartridge.minimal .linear with
    program := ⟨#[0x58, 0x4C, 0x01, 0x80, 0x00, 0x80, 0x00, 0x80], by decide⟩ }

/-- The processor of that machine when it is switched on. -/
def atStart : Processor :=
  { Processor.powerOff with registers := { Registers.powerOn with pc := 0x8000 } }

/-- The processor in the loop. -/
def inLoop (cycles : UInt64) : Processor :=
  { registers :=
      { Registers.powerOn with pc := 0x8001, p := Status.powerOn.clear Status.interruptDisable }
    cycles, stall := 0, pending := none }

theorem read_looping {b : Bus} (h : b.board = ⟨looping, .linear⟩) {address : UInt16}
    (hprogram : 0x8000 ≤ address) :
    AddressSpace.read address b = (Board.read ⟨looping, .linear⟩ address, b) := by
  rw [← h]
  exact b.read_program hprogram

theorem undisturbed_looping (rate : UInt32) :
    Undisturbed looping atStart 0 (ofCartridge looping rate) := by
  have hpowered : Processor.powerOff.powerOn (Bus.powerOn (.ofCartridge looping) rate) =
      (atStart, Bus.powerOn (.ofCartridge looping) rate) := by
    have hboard : (Bus.powerOn (.ofCartridge looping) rate).board = ⟨looping, .linear⟩ := rfl
    have hlow := read_looping hboard (show 0x8000 ≤ Processor.resetVector by decide)
    have hhigh := read_looping hboard (show 0x8000 ≤ Processor.resetVector + 1 by decide)
    simp only [Processor.powerOn, AddressSpace.readWord, hlow, hhigh]
    rfl
  have hmachine : ofCartridge looping rate =
      { cpu := atStart, bus := Bus.powerOn (.ofCartridge looping) rate } := by
    simp only [ofCartridge, ofBoard, hpowered]
  rw [hmachine]
  exact ⟨rfl, rfl, rfl, ⟨rfl, rfl⟩, rfl, Sequencer.untouched_powerOn⟩

theorem step_atStart {b : Bus} (h : b.board = ⟨looping, .linear⟩) :
    atStart.step b = (2, inLoop 2, b) := by
  have hopcode := read_looping h (show 0x8000 ≤ atStart.registers.pc by decide)
  have hstall : ¬ atStart.stall > 0 := by decide
  have hpending : atStart.pending = none := rfl
  simp only [Processor.step, if_neg hstall, hpending, Processor.takeInterrupt,
    Processor.runInstruction, hopcode]
  rfl

theorem step_inLoop {b : Bus} (h : b.board = ⟨looping, .linear⟩) (cycles : UInt64) :
    (inLoop cycles).step b = (3, inLoop (cycles + 3), b) := by
  have hopcode := read_looping h (show 0x8000 ≤ (0x8001 : UInt16) by decide)
  have hlow := read_looping h (show 0x8000 ≤ (0x8001 + 1 : UInt16) by decide)
  have hhigh := read_looping h (show 0x8000 ≤ (0x8001 + 1 + 1 : UInt16) by decide)
  have hjump : Instruction.decode (Board.read ⟨looping, .linear⟩ 0x8001) =
      ⟨.jmp, .absolute, 3, 0⟩ := by decide
  simp only [Processor.step, inLoop, gt_iff_lt, UInt32.lt_irrefl, if_false,
    Processor.takeInterrupt, Processor.runInstruction, hopcode, hjump, Operand.resolve,
    AddressSpace.readWord, hlow, hhigh]
  rfl

/-- Until the shorter sequence ends for the first time, the processor goes round. -/
theorem undisturbed_rounds (rate : UInt32) {k : Nat} (hk : 2 + 3 * k < 29829) :
    Undisturbed looping (inLoop (.ofNat (2 + 3 * k))) (2 + 3 * k)
      (afterSteps (k + 1) (ofCartridge looping rate)) := by
  induction k with
  | zero =>
      have hstart := undisturbed_looping rate
      exact hstart.run (step_atStart hstart.board)
  | succ k ih =>
      have hround := ih (by omega)
      have hnext := hround.run (step_inLoop hround.board _)
      have hcycle : 2 + 3 * k + (3 : UInt32).toNat = 2 + 3 * (k + 1) := rfl
      have hcycles : UInt64.ofNat (2 + 3 * k) + 3 = .ofNat (2 + 3 * (k + 1)) :=
        (UInt64.ofNat_add (2 + 3 * k) 3).symm
      rw [hcycle, hcycles, if_neg (Nat.not_le.2 hk)] at hnext
      exact hnext

/-- The round in which it ends leaves the request up, and the processor latches it. -/
theorem undisturbed_raised (rate : UInt32) :
    Undisturbed looping ((inLoop 29831).request .irq) 29831
      (afterSteps 9943 (ofCartridge looping rate)).run.2 := by
  have hround := undisturbed_rounds rate (show 2 + 3 * 9942 < 29829 by decide)
  have hcycle : 2 + 3 * 9942 = 29828 := by decide
  rw [hcycle] at hround
  exact hround.run (step_inLoop hround.board 29828)

end Famicom.Machine
