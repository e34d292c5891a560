import Famicom.Proofs.Cpu.Cost
import Famicom.Proofs.Machine.Checked
import Famicom.Proofs.Video.Clock

/-!
# Time is conserved

The processor says how many cycles a step took, and everything else catches up by
that many: the count of cycles moves on by what was reported, and the beam by three
times as many dots.

* **beam** — of all that happens in a step only the dots move the beam
  (`Bus.beam_invariant`, `beam_beforeDots`);
* **dots** — each of them takes its time (`atTime_catchUpPicture`);
* **steps** — so the two clocks run together from power-on, through any number of
  steps (`time_conserved`).
-/

namespace Famicom.Machine

open Audio Cartridge Cpu Video

variable {m : Machine}

/-! ## What does not move the beam -/

namespace Bus

theorem beam_read (b : Bus) (address : UInt16) :
    (b.read address).2.picture.beam = b.picture.beam := by
  unfold Bus.read
  split
  · rfl
  split
  · exact b.picture.beam_readRegister b.board address
  split
  · unfold readDevice
    split <;> rfl
  · rfl

theorem beam_write (b : Bus) (address : UInt16) (value : UInt8) :
    (b.write address value).picture.beam = b.picture.beam := by
  unfold Bus.write
  split
  · rfl
  split
  · exact b.picture.beam_writeRegister b.board address value
  split
  · unfold writeDevice
    split
    · rfl
    · rfl
    split <;> rfl
  · rfl

/-- No access of the processor moves the beam. -/
theorem beam_invariant (beam : Beam) : Invariant fun b : Bus => b.picture.beam = beam where
  read address b h := (b.beam_read address).trans h
  write address value b h := (b.beam_write address value).trans h

end Bus

theorem beam_stepCpu (m : Machine) : m.stepCpu.2.bus.picture.beam = m.bus.picture.beam :=
  step_invariant (Bus.beam_invariant m.bus.picture.beam) m.cpu rfl

theorem beam_copySprites (n : Nat) (source : UInt16) (target : UInt8) (b : Bus) :
    (copySprites n source target b).picture.beam = b.picture.beam := by
  induction n generalizing source target b with
  | zero => rfl
  | succ n ih =>
      rw [copySprites_succ, ih]
      exact b.beam_read source

theorem beam_transferSprites (m : Machine) :
    m.transferSprites.bus.picture.beam = m.bus.picture.beam := by
  unfold transferSprites
  split
  · rfl
  · simp only [beam_copySprites]

theorem beam_tickSound (m : Machine) : m.tickSound.bus.picture.beam = m.bus.picture.beam := by
  unfold tickSound fetchSample
  split
  · rfl
  · exact Bus.beam_read _ _

theorem beam_catchUpSound (cycles : Nat) (m : Machine) :
    (m.catchUpSound cycles).bus.picture.beam = m.bus.picture.beam := by
  induction cycles generalizing m with
  | zero => rfl
  | succ n ih => exact (ih m.tickSound).trans m.beam_tickSound

/-- Until the picture unit begins to follow a step, the beam stays. -/
theorem beam_beforeDots (m : Machine) : m.beforeDots.bus.picture.beam = m.bus.picture.beam := by
  unfold beforeDots
  rw [beam_catchUpSound, beam_transferSprites, beam_stepCpu]

theorem beam_requestIrq (m : Machine) : m.requestIrq.bus.picture.beam = m.bus.picture.beam := by
  unfold requestIrq
  split <;> rfl

/-! ## Dots -/

theorem beam_tickPicture (m : Machine) :
    m.tickPicture.bus.picture.beam = m.bus.picture.beam.advance m.bus.picture.rendering := by
  rw [tickPicture_eq]
  show (m.bus.picture.tick m.bus.board).takeNmi.2.beam = _
  rw [PictureUnit.beam_takeNmi, PictureUnit.beam_tick]

/-- The dots that the beam leaves out while this many are drawn. -/
def skippedDots : (dots : Nat) → Machine → Nat
  | 0, _ => 0
  | n + 1, m =>
    (m.bus.picture.beam.skips m.tickPicture.bus.picture.beam).toNat + skippedDots n m.tickPicture

theorem skippedDots_succ (dots : Nat) (m : Machine) :
    skippedDots (dots + 1) m =
      (m.bus.picture.beam.skips m.tickPicture.bus.picture.beam).toNat +
        skippedDots dots m.tickPicture :=
  rfl

/-- A dot leaves out at most one. -/
theorem skippedDots_le (dots : Nat) (m : Machine) : skippedDots dots m ≤ dots := by
  induction dots generalizing m with
  | zero => exact Nat.le_refl 0
  | succ n ih =>
      have hrest := ih m.tickPicture
      have hfirst := Bool.toNat_le (m.bus.picture.beam.skips m.tickPicture.bus.picture.beam)
      rw [skippedDots_succ]
      omega

/-- Every dot takes its time. -/
theorem atTime_catchUpPicture {t : Nat} (h : m.bus.picture.beam.AtTime t) (dots : Nat) :
    (m.catchUpPicture dots).bus.picture.beam.AtTime (t + dots + skippedDots dots m) := by
  induction dots generalizing m t with
  | zero => exact h
  | succ n ih =>
      have hdot := h.advance m.bus.picture.rendering
      rw [← beam_tickPicture] at hdot
      have hrest := ih hdot
      have htime : t + 1 + (m.bus.picture.beam.skips m.tickPicture.bus.picture.beam).toNat + n +
          skippedDots n m.tickPicture = t + (n + 1) + skippedDots (n + 1) m := by
        rw [skippedDots_succ]
        omega
      rw [htime] at hrest
      exact hrest

/-! ## Steps -/

/-- The dots that the beam leaves out in a step. -/
def skippedInStep (m : Machine) : Nat := skippedDots (3 * m.run.1.toNat) m.beforeDots

theorem atTime_run {t : Nat} (h : m.bus.picture.beam.AtTime t) :
    m.run.2.bus.picture.beam.AtTime (t + 3 * m.run.1.toNat + m.skippedInStep) := by
  have hrun : m.run.2 = (m.beforeDots.catchUpPicture (3 * m.run.1.toNat)).requestIrq := rfl
  rw [hrun, beam_requestIrq]
  exact atTime_catchUpPicture (m.beam_beforeDots.symm ▸ h) _

theorem run_cost (m : Machine) : 1 ≤ m.run.1.toNat ∧ m.run.1.toNat ≤ 15 :=
  Processor.step_cost m.cpu m.bus

/-- The machine behind some steps. -/
def afterSteps : (steps : Nat) → Machine → Machine
  | 0, m => m
  | n + 1, m => (afterSteps n m).run.2

/-- The sum of the cycles that these steps report. -/
def reported : (steps : Nat) → Machine → Nat
  | 0, _ => 0
  | n + 1, m => reported n m + (afterSteps n m).run.1.toNat

/-- The dots that the beam has left out in them. -/
def skipped : (steps : Nat) → Machine → Nat
  | 0, _ => 0
  | n + 1, m => skipped n m + (afterSteps n m).skippedInStep

theorem reported_succ (steps : Nat) (m : Machine) :
    reported (steps + 1) m = reported steps m + (afterSteps steps m).run.1.toNat :=
  rfl

theorem skipped_succ (steps : Nat) (m : Machine) :
    skipped (steps + 1) m = skipped steps m + (afterSteps steps m).skippedInStep :=
  rfl

theorem skipped_le (steps : Nat) (m : Machine) : skipped steps m ≤ 3 * reported steps m := by
  induction steps with
  | zero => exact Nat.le_refl 0
  | succ n ih =>
      have hstep : (afterSteps n m).skippedInStep ≤ 3 * (afterSteps n m).run.1.toNat :=
        skippedDots_le _ _
      rw [skipped_succ, reported_succ]
      omega

theorem atTime_afterSteps {t : Nat} (h : m.bus.picture.beam.AtTime t) (steps : Nat) :
    (afterSteps steps m).bus.picture.beam.AtTime (t + 3 * reported steps m + skipped steps m) := by
  induction steps with
  | zero => exact h
  | succ n ih =>
      have hrun := atTime_run ih
      have htime : t + 3 * reported n m + skipped n m + 3 * (afterSteps n m).run.1.toNat +
          (afterSteps n m).skippedInStep =
            t + 3 * reported (n + 1) m + skipped (n + 1) m := by
        rw [reported_succ, skipped_succ]
        omega
      rw [htime] at hrun
      exact hrun

theorem cycles_afterSteps (steps : Nat) (m : Machine) :
    (afterSteps steps m).cpu.cycles = m.cpu.cycles + .ofNat (reported steps m) := by
  induction steps with
  | zero => exact (UInt64.add_zero _).symm
  | succ n ih =>
      show (afterSteps n m).run.2.cpu.cycles = _
      rw [cycles_run, ih, UInt64.add_assoc]
      congr 1
      rw [← UInt64.toNat_inj, UInt64.toNat_add, UInt32.toNat_toUInt64]
      simp only [reported, UInt64.toNat_ofNat']
      omega

/-! ## From power-on -/

/-- The picture begins with the last dot before vertical blanking. -/
theorem atTime_ofCartridge (c : Cartridge) (rate : UInt32) :
    (ofCartridge c rate).bus.picture.beam.AtTime 82180 := by
  have hbeam : (ofCartridge c rate).bus.picture.beam = PictureUnit.powerOn.beam :=
    powerOn_invariant (Bus.beam_invariant PictureUnit.powerOn.beam) Processor.powerOff
      (s := Bus.powerOn (.ofCartridge c) rate) rfl
  rw [hbeam]
  exact ⟨⟨by decide, by decide⟩, 0, rfl, rfl⟩

theorem cycles_ofCartridge (c : Cartridge) (rate : UInt32) :
    (ofCartridge c rate).cpu.cycles = 0 :=
  rfl

/-- **Time is conserved.** A machine with any cartridge is switched on and takes any
number of steps. Each of them reports one to fifteen cycles. The processor has
counted what was reported. The beam is on the picture, also at every dot of the step
that follows, and it has moved by three dots for each cycle that was reported, the
ones that it has left out not counted. The counts of cycles and frames are words of
64 bits; they are exact as long as the cycles do not go beyond them. -/
theorem time_conserved (c : Cartridge) (rate : UInt32) (steps : Nat) :
    let start := ofCartridge c rate
    let m := afterSteps steps start
    let cycles := reported steps start
    (∀ k < steps, 1 ≤ (afterSteps k start).run.1 ∧ (afterSteps k start).run.1 ≤ 15) ∧
      m.cpu.cycles = .ofNat cycles ∧
      m.bus.picture.beam.line ≤ 261 ∧ m.bus.picture.beam.dot ≤ 340 ∧
      (∀ dots, (m.beforeDots.catchUpPicture dots).bus.picture.beam.OnPicture) ∧
      (∃ frames : Nat, m.bus.picture.beam.frame = .ofNat frames ∧
        89342 * frames + 341 * m.bus.picture.beam.line.toNat + m.bus.picture.beam.dot.toNat =
          82180 + 3 * cycles + skipped steps start) ∧
      (cycles < 2 ^ 64 →
        m.cpu.cycles.toNat = cycles ∧
        89342 * m.bus.picture.beam.frame.toNat + 341 * m.bus.picture.beam.line.toNat +
            m.bus.picture.beam.dot.toNat =
          82180 + 3 * cycles + skipped steps start) := by
  intro start m cycles
  have hcount : m.cpu.cycles = .ofNat cycles := by
    have hsum := cycles_afterSteps steps start
    rw [cycles_ofCartridge, UInt64.zero_add] at hsum
    exact hsum
  have htime : m.bus.picture.beam.AtTime (82180 + 3 * cycles + skipped steps start) :=
    atTime_afterSteps (atTime_ofCartridge c rate) steps
  refine ⟨?_, hcount, htime.onPicture.1, htime.onPicture.2, ?_, htime.time, ?_⟩
  · intro k _
    obtain ⟨hlow, hhigh⟩ := run_cost (afterSteps k start)
    exact ⟨UInt32.le_iff_toNat_le.2 hlow, UInt32.le_iff_toNat_le.2 hhigh⟩
  · intro dots
    exact (atTime_catchUpPicture (m.beam_beforeDots.symm ▸ htime) dots).onPicture
  · intro hlt
    have hskipped := skipped_le steps start
    refine ⟨?_, htime.frame_eq ?_⟩
    · rw [hcount, UInt64.toNat_ofNat_of_lt' hlt]
    · simp only [Beam.dotsPerFrame]
      omega

end Famicom.Machine
