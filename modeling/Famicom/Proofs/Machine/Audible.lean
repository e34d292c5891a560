import Famicom.Machine.Machine
import Famicom.Proofs.Audio.InRange
import Famicom.Proofs.Cpu.Morphism

/-!
# The output hears the machine and is not heard by it

The rate of the output, what the resampler has collected, and the samples that
nobody has taken: no part of the machine looks at them. So a machine with another
rate, another resampler and other samples does the same in every step, and ends up
different in them only (`run_withOutput`, `runFrame_withOutput`). The rate stays.

The processor is covered by `output_morphism`: exchanging the output commutes with
all reads and writes.
-/

namespace Famicom.Audio.SoundUnit

/-- The sound unit with another resampler and other samples. -/
def withAudio (resampler : Resampler) (samples : Array Float32) (u : SoundUnit) : SoundUnit :=
  { u with resampler, samples }

/-- The sound unit with another output: at another rate, with another resampler and
other samples. -/
def withOutput (rate : UInt32) (resampler : Resampler) (samples : Array Float32)
    (u : SoundUnit) : SoundUnit :=
  { u with rate, resampler, samples }

variable (rate : UInt32) (r : Resampler) (s : Array Float32)

theorem read_withOutput (u : SoundUnit) (address : UInt16) :
    (u.withOutput rate r s).read address =
      ((u.read address).1, (u.read address).2.withOutput rate r s) := by
  unfold SoundUnit.read
  split <;> rfl

theorem clockFrame_withOutput (u : SoundUnit) (event : FrameEvent) :
    (u.withOutput rate r s).clockFrame event = (u.clockFrame event).withOutput rate r s := by
  cases event <;> rfl

theorem writeSequencer_withOutput (u : SoundUnit) (value : UInt8) :
    (u.withOutput rate r s).writeSequencer value =
      (u.writeSequencer value).withOutput rate r s := by
  unfold writeSequencer
  by_cases h : (u.sequencer.write value).mode = .five
  · have h' : ((u.withOutput rate r s).sequencer.write value).mode = .five := h
    simp only [h, h', if_true]
    rfl
  · have h' : ((u.withOutput rate r s).sequencer.write value).mode ≠ .five := h
    simp only [h, h', if_false]
    rfl

theorem write_withOutput (u : SoundUnit) (address : UInt16) (value : UInt8) :
    (u.withOutput rate r s).write address value = (u.write address value).withOutput rate r s := by
  unfold SoundUnit.write
  split
  · rfl
  split
  · rfl
  split
  · rfl
  split
  · rfl
  split
  · rfl
  split
  · rfl
  split
  · rfl
  split
  · exact writeSequencer_withOutput rate r s u value
  · rfl

theorem clockTimers_withOutput (u : SoundUnit) :
    (u.withOutput rate r s).clockTimers = u.clockTimers.withOutput rate r s := by
  rcases u with ⟨⟨pulse1, pulse2, triangle, noise, delta, sequencer, oddCycle, resampler⟩,
    rate', samples⟩
  cases oddCycle <;> rfl

theorem clockSequencer_due {u : SoundUnit} (h : u.sequencer.due = true) :
    u.clockSequencer =
      { u with sequencer := u.sequencer.advance.2 }.clockFrame u.sequencer.advance.1 := by
  simp only [clockSequencer, h, if_true]

theorem clockSequencer_wait {u : SoundUnit} (h : u.sequencer.due = false) :
    u.clockSequencer = { u with sequencer := u.sequencer.wait } := by
  simp only [clockSequencer, h, Bool.false_eq_true, if_false]

theorem clockSequencer_withOutput (u : SoundUnit) :
    (u.withOutput rate r s).clockSequencer = u.clockSequencer.withOutput rate r s := by
  cases h : u.sequencer.due with
  | true =>
      have h' : (u.withOutput rate r s).sequencer.due = true := h
      rw [clockSequencer_due h, clockSequencer_due h']
      exact clockFrame_withOutput rate r s { u with sequencer := u.sequencer.advance.2 } _
  | false =>
      have h' : (u.withOutput rate r s).sequencer.due = false := h
      rw [clockSequencer_wait h, clockSequencer_wait h']
      rfl

/-- After a cycle everything else is the same. -/
theorem tick_withOutput (u : SoundUnit) :
    ∃ r' s', (u.withOutput rate r s).tick = u.tick.withOutput rate r' s' := by
  -- timers and sequencer do the same on both sides; what is collected may differ
  obtain ⟨r₁, s₁, h₁⟩ := (u.withOutput rate r s).clockTimers.clockSequencer.collect_output
  obtain ⟨r₂, s₂, h₂⟩ := u.clockTimers.clockSequencer.collect_output
  refine ⟨r₁, s₁, ?_⟩
  unfold tick
  rw [h₁, h₂, clockTimers_withOutput, clockSequencer_withOutput]
  rfl

end Famicom.Audio.SoundUnit

namespace Famicom.Machine

open Audio Cartridge Cpu Video

/-! ## The bus -/

namespace Bus

/-- The bus with another resampler and other samples. -/
def withAudio (r : Resampler) (s : Array Float32) (b : Bus) : Bus :=
  { b with sound := b.sound.withAudio r s }

/-- The bus with another output of the sound unit. -/
def withOutput (rate : UInt32) (r : Resampler) (s : Array Float32) (b : Bus) : Bus :=
  { b with sound := b.sound.withOutput rate r s }

variable (rate : UInt32) (r : Resampler) (s : Array Float32)

theorem read_withOutput (b : Bus) (address : UInt16) :
    (b.withOutput rate r s).read address =
      ((b.read address).1, (b.read address).2.withOutput rate r s) := by
  unfold Bus.read
  split
  · rfl
  split
  · rfl
  split
  · unfold readDevice
    split
    · simp only [withOutput, SoundUnit.read_withOutput]
    all_goals rfl
  · rfl

theorem write_withOutput (b : Bus) (address : UInt16) (value : UInt8) :
    (b.withOutput rate r s).write address value = (b.write address value).withOutput rate r s := by
  unfold Bus.write
  split
  · rfl
  split
  · rfl
  split
  · unfold writeDevice
    split
    · rfl
    · rfl
    split
    · simp only [withOutput, SoundUnit.write_withOutput]
    · rfl
  · rfl

/-- The processor does not notice what the resampler has collected. -/
theorem output_morphism : Morphism (withOutput rate r s) where
  read address b := read_withOutput rate r s b address
  write address value b := write_withOutput rate r s b address value

end Bus

/-! ## The machine -/

/-- The machine with another resampler and other samples. -/
def withAudio (r : Resampler) (s : Array Float32) (m : Machine) : Machine :=
  { m with bus := m.bus.withAudio r s }

/-- Two machines that agree on everything but the resampler and the samples. -/
def SameButAudio (a b : Machine) : Prop := ∃ r s, b = a.withAudio r s

/-- The machine with another output of its sound unit. -/
def withOutput (rate : UInt32) (r : Resampler) (s : Array Float32) (m : Machine) : Machine :=
  { m with bus := m.bus.withOutput rate r s }

variable (rate : UInt32) (r : Resampler) (s : Array Float32)

theorem stepCpu_eq (m : Machine) :
    m.stepCpu =
      ((m.cpu.step m.bus).1, ⟨(m.cpu.step m.bus).2.1, (m.cpu.step m.bus).2.2⟩) :=
  rfl

theorem stepCpu_withOutput (m : Machine) :
    (m.withOutput rate r s).stepCpu = (m.stepCpu.1, m.stepCpu.2.withOutput rate r s) := by
  have h : m.cpu.step (m.bus.withOutput rate r s) =
      ((m.cpu.step m.bus).1, (m.cpu.step m.bus).2.1, (m.cpu.step m.bus).2.2.withOutput rate r s) :=
    (Bus.output_morphism rate r s).step m.cpu m.bus
  rw [stepCpu_eq, stepCpu_eq]
  simp only [withOutput, h]

theorem copySprites_withOutput (n : Nat) (source : UInt16) (target : UInt8) (b : Bus) :
    copySprites n source target (b.withOutput rate r s) =
      (copySprites n source target b).withOutput rate r s := by
  induction n generalizing source target b with
  | zero => rfl
  | succ n ih =>
      simp only [copySprites, Bus.read_withOutput]
      exact ih (source + 1) (target + 1)
        { (b.read source).2 with
          picture := (b.read source).2.picture.writeSprite target (b.read source).1 }

theorem transferSprites_withOutput (m : Machine) :
    (m.withOutput rate r s).transferSprites = m.transferSprites.withOutput rate r s := by
  rcases m with ⟨cpu, ⟨memory, picture, sound, board, joypad1, joypad2, transferPage⟩⟩
  cases transferPage with
  | none => rfl
  | some page =>
      have hcopy := copySprites_withOutput rate r s 256 (Word.ofBytes 0 page) picture.spriteAddress
        ⟨memory, picture, sound, board, joypad1, joypad2, none⟩
      simp only [transferSprites, withOutput]
      exact congrArg (Machine.mk _) hcopy

theorem fetchSample_withOutput (m : Machine) :
    (m.withOutput rate r s).fetchSample = m.fetchSample.withOutput rate r s := by
  have hread := Bus.read_withOutput rate r s m.bus
  cases h : m.bus.sound.request? with
  | none =>
      have h' : (m.withOutput rate r s).bus.sound.request? = none := h
      simp only [fetchSample, h, h']
  | some address =>
      have h' : (m.withOutput rate r s).bus.sound.request? = some address := h
      simp only [fetchSample, h, h']
      show (⟨_, { ((m.bus.withOutput rate r s).read address).2 with
          sound := ((m.bus.withOutput rate r s).read address).2.sound.deliver
            ((m.bus.withOutput rate r s).read address).1 }⟩ : Machine) = _
      rw [hread]
      rfl

theorem tickSound_withOutput (m : Machine) :
    ∃ r' s', (m.withOutput rate r s).tickSound = m.tickSound.withOutput rate r' s' := by
  obtain ⟨r', s', h⟩ := SoundUnit.tick_withOutput rate r s m.bus.sound
  refine ⟨r', s', ?_⟩
  have hticked : { m.withOutput rate r s with bus := { (m.withOutput rate r s).bus with
      sound := (m.bus.sound.withOutput rate r s).tick } } =
        { m with bus := { m.bus with sound := m.bus.sound.tick } }.withOutput rate r' s' := by
    rw [h]
    rfl
  show fetchSample _ = (fetchSample _).withOutput rate r' s'
  rw [← fetchSample_withOutput]
  exact congrArg fetchSample hticked

theorem catchUpSound_withOutput (n : Nat) (m : Machine) :
    ∃ r' s', (m.withOutput rate r s).catchUpSound n =
      (m.catchUpSound n).withOutput rate r' s' := by
  -- every cycle collects something else, so the resampler is not the same throughout
  induction n generalizing m r s with
  | zero => exact ⟨r, s, rfl⟩
  | succ n ih =>
      obtain ⟨r', s', h⟩ := tickSound_withOutput rate r s m
      obtain ⟨r'', s'', h'⟩ := ih r' s' m.tickSound
      refine ⟨r'', s'', ?_⟩
      show (m.withOutput rate r s).tickSound.catchUpSound n = _
      rw [h, h']
      rfl

theorem catchUpPicture_withOutput (n : Nat) (m : Machine) :
    (m.withOutput rate r s).catchUpPicture n = (m.catchUpPicture n).withOutput rate r s := by
  -- a dot does not look at the sound unit at all
  induction n generalizing m with
  | zero => rfl
  | succ n ih => exact ih m.tickPicture

theorem requestIrq_withOutput (m : Machine) :
    (m.withOutput rate r s).requestIrq = m.requestIrq.withOutput rate r s := by
  unfold requestIrq
  have hline : ((m.withOutput rate r s).bus.sound.irq ||
      (m.withOutput rate r s).bus.board.request) =
        (m.bus.sound.irq || m.bus.board.request) := rfl
  rw [hline]
  split <;> rfl

theorem run_eq (m : Machine) :
    m.run =
      (m.stepCpu.1,
        ((m.stepCpu.2.transferSprites.catchUpSound m.stepCpu.1.toNat).catchUpPicture
          (3 * m.stepCpu.1.toNat)).requestIrq) :=
  rfl

/-- A step takes as many cycles, and ends in the same state but for what is
heard. -/
theorem run_withOutput (m : Machine) :
    ∃ r' s', (m.withOutput rate r s).run = (m.run.1, m.run.2.withOutput rate r' s') := by
  have hcpu := stepCpu_withOutput rate r s m
  obtain ⟨r', s', hsound⟩ :=
    catchUpSound_withOutput rate r s m.stepCpu.1.toNat m.stepCpu.2.transferSprites
  refine ⟨r', s', ?_⟩
  rw [run_eq, hcpu]
  simp only []
  rw [transferSprites_withOutput, hsound, catchUpPicture_withOutput, requestIrq_withOutput]
  rfl

theorem runWhile_withOutput (frame : UInt64) (fuel : Nat) (cycles : UInt64) (m : Machine) :
    ∃ r' s', runWhile frame fuel cycles (m.withOutput rate r s) =
      ((runWhile frame fuel cycles m).1,
        (runWhile frame fuel cycles m).2.withOutput rate r' s') := by
  induction fuel generalizing cycles m r s with
  | zero => exact ⟨r, s, rfl⟩
  | succ fuel ih =>
      obtain ⟨r', s', hrun⟩ := run_withOutput rate r s m
      simp only [runWhile, hrun]
      have hframe : (m.run.2.withOutput rate r' s').bus.picture.beam.frame =
          m.run.2.bus.picture.beam.frame := rfl
      rw [hframe]
      split
      · exact ih r' s' _ _
      · exact ⟨r', s', rfl⟩

/-- The same for a frame. -/
theorem runFrame_withOutput (m : Machine) :
    ∃ r' s', (m.withOutput rate r s).runFrame =
      (m.runFrame.1, m.runFrame.2.withOutput rate r' s') :=
  runWhile_withOutput rate r s _ _ _ m

end Famicom.Machine
