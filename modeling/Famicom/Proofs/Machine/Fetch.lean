import Famicom.Proofs.Machine.Attainable
import Famicom.Proofs.Machine.Interleaving

/-!
# Fetching samples

A sample is fetched with the same read as that of the processor, and many reads do
something: they take a button from a joypad, take back a request, fill a buffer or move
on an address. A fetch does nothing of the kind, since all its addresses are in the upper
half of the address space.

* **moments** — a step is a sequence of small actions, and the widths, that of the
  sample address among them, hold between any two of them (`Moment.intact`);
* **frame** — so a fetch changes the delta channel and the waiting of the processor,
  and nothing else (`fetchSample_frame`), and neither do all the fetches while the sound
  unit catches up (`catchUpSound_frame`).
-/

namespace Famicom.Machine

open Audio Cartridge Cpu Video

/-! ## Moments -/

/-- The small actions of which the steps of a machine consist. -/
inductive Action where
  | stepCpu
  | transferSprites
  /-- A cycle of the sound unit, before a sample is fetched. -/
  | tickSound
  | fetchSample
  | tickPicture
  | requestIrq

/-- Take an action. -/
def act (m : Machine) : Action → Machine
  | .stepCpu => m.stepCpu.2
  | .transferSprites => m.transferSprites
  | .tickSound => { m with bus := { m.bus with sound := m.bus.sound.tick } }
  | .fetchSample => m.fetchSample
  | .tickPicture => m.tickPicture
  | .requestIrq => m.requestIrq

/-- The machines between two operations, or in the middle of one. -/
inductive Moment (c : Cartridge) (rate : UInt32) : Machine → Prop
  | idle {m : Machine} : Attainable c rate m → Moment c rate m
  | act {m : Machine} (action : Action) : Moment c rate m → Moment c rate (m.act action)

variable {c : Cartridge} {rate : UInt32} {m : Machine}

theorem Intact.act {make : Make} (h : Intact make m) (action : Action) :
    Intact make (m.act action) := by
  cases action with
  | stepCpu => exact h.stepCpu
  | transferSprites => exact h.transferSprites
  | tickSound => exact h.ticked
  | fetchSample => exact h.fetchSample
  | tickPicture => exact h.tickPicture
  | requestIrq => exact h.requestIrq

theorem Moment.intact (h : Moment c rate m) : Intact (makeOf c rate) m := by
  induction h with
  | idle h => exact h.intact
  | act action _ ih => exact ih.act action

theorem Moment.tickSound (h : Moment c rate m) : Moment c rate m.tickSound :=
  .act .fetchSample (.act .tickSound h)

theorem Moment.catchUpSound (h : Moment c rate m) (cycles : Nat) :
    Moment c rate (m.catchUpSound cycles) := by
  induction cycles generalizing m with
  | zero => exact h
  | succ n ih => exact ih h.tickSound

theorem Moment.catchUpPicture (h : Moment c rate m) (dots : Nat) :
    Moment c rate (m.catchUpPicture dots) := by
  induction dots generalizing m with
  | zero => exact h
  | succ n ih => exact ih (.act .tickPicture h)

/-- A step goes from moment to moment, and so do all its fetches. -/
theorem Moment.run (h : Moment c rate m) : Moment c rate m.run.2 := by
  have hstep : Moment c rate m.stepCpu.2.transferSprites :=
    .act .transferSprites (.act .stepCpu h)
  exact .act .requestIrq ((hstep.catchUpSound _).catchUpPicture _)

/-! ## The frame of a fetch -/

/-- A cycle of the sound unit with its fetch, if there is one. -/
theorem tickSound_frame (h : Moment c rate m) :
    ∃ stall sound, m.tickSound = { cpu := { m.cpu with stall }, bus := { m.bus with sound } } := by
  rw [tickSound_eq h.intact.bus.sound]
  cases m.bus.sound.tick.request? with
  | none => exact ⟨m.cpu.stall, m.bus.sound.tick, rfl⟩
  | some address =>
      exact ⟨(m.cpu.addStall sampleCycles).stall,
        m.bus.sound.tick.deliver (m.bus.board.read address), rfl⟩

/-- **A fetch has no side effects.** At every moment, whatever was loaded into the machine
before: a sample that is wanted lies in the upper half of the address space. Fetching it
delivers the byte that the board shows there to the delta channel and makes the processor
wait. Memory, picture unit, joypads, board, the rest of the sound unit and the latch of
the sprite transfer stay as they are. -/
theorem fetchSample_frame (h : Moment c rate m) {address : UInt16}
    (hwanted : m.bus.sound.request? = some address) :
    0x8000 ≤ address ∧
      m.fetchSample =
        { cpu := { m.cpu with stall := (m.cpu.addStall sampleCycles).stall }
          bus :=
            { m.bus with
              sound :=
                { m.bus.sound with
                  delta := m.bus.sound.delta.deliver (m.bus.board.read address) } } } := by
  have hupper : 0x8000 ≤ address := le_request h.intact.bus.sound hwanted
  refine ⟨hupper, ?_⟩
  unfold fetchSample
  simp only [hwanted, Bus.read_program hupper]
  rfl

/-- A state that somebody has written by hand wants a byte of the status register of the
sound unit. Once it is loaded it wants one of the program. -/
theorem fetchSample_frame_edited :
    let m := ofCartridge (.minimal .serial) defaultRate
    let saved : SavedMachine :=
      { m.save with
        sound :=
          { m.save.sound with
            delta := { Delta.powerOn with address := 0x4015, remaining := 2, wanted := true } } }
    let m' := (load saved m).2
    m'.bus.sound.request? = some 0xC015 ∧
      (0x8000 : UInt16) ≤ 0xC015 ∧
      m'.fetchSample =
        { cpu := { m'.cpu with stall := (m'.cpu.addStall sampleCycles).stall }
          bus :=
            { m'.bus with
              sound :=
                { m'.bus.sound with
                  delta := m'.bus.sound.delta.deliver (m'.bus.board.read 0xC015) } } } := by
  intro m saved m'
  have hm : Attainable (.minimal .serial) defaultRate m := .reachable .cartridge
  have hload : load saved m = (.ok (), m.loaded saved) :=
    load_accepted (hm.intact.accepts_save hm.intact)
  have hwanted : m'.bus.sound.request? = some 0xC015 := by
    show (load saved m).2.bus.sound.request? = some 0xC015
    rw [hload]
    show saved.sound.delta.restore.request? = some 0xC015
    decide
  exact ⟨hwanted, fetchSample_frame (.idle (.load saved hm)) hwanted⟩

/-- All the fetches while the sound unit catches up change the sound unit and the waiting
of the processor, and nothing else. -/
theorem catchUpSound_frame (h : Moment c rate m) (cycles : Nat) :
    ∃ stall sound,
      m.catchUpSound cycles = { cpu := { m.cpu with stall }, bus := { m.bus with sound } } := by
  induction cycles generalizing m with
  | zero => exact ⟨m.cpu.stall, m.bus.sound, rfl⟩
  | succ n ih =>
      obtain ⟨first, ticked, hfirst⟩ := tickSound_frame h
      obtain ⟨stall, sound, hrest⟩ := ih h.tickSound
      refine ⟨stall, sound, hrest.trans ?_⟩
      rw [hfirst]

end Famicom.Machine
