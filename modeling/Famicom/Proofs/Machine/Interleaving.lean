import Famicom.Proofs.Machine.Resume

/-!
# The order of catching up

After a step of the processor the sound unit catches up first and the picture
unit afterwards. Nobody can tell: the two take turns in any order and the machine
ends up the same.

* **samples** — a sample comes from the program, which no dot of the picture
  changes (`fetchSample_eq`, `Board.read_step`);
* **exchange** — a cycle of sound and a dot of picture may change places
  (`Intact.tickSound_tickPicture`);
* **orders** — so may any number of them (`Intact.takeTurns_eq`), and a step of the
  whole machine is the same in every order (`takeTurns_unobservable`).
-/

namespace Famicom.Cpu.Processor

/-- Waiting and requests do not meet. -/
theorem request_addStall (c : Processor) (i : Interrupt) (n : UInt32) :
    (c.addStall n).request i = (c.request i).addStall n := by
  cases i with
  | reset => rfl
  | nmi =>
      by_cases h : c.pending = some .reset
      · have h' : (c.addStall n).pending = some .reset := h
        simp only [request, if_pos h, if_pos h']
      · have h' : ¬ (c.addStall n).pending = some .reset := h
        simp only [request, if_neg h, if_neg h']
        rfl
  | irq =>
      cases h : !c.registers.p.has Status.interruptDisable && c.pending.isNone with
      | true =>
          have h' : (!(c.addStall n).registers.p.has Status.interruptDisable &&
            (c.addStall n).pending.isNone) = true := h
          simp only [request, h, h', if_true]
          rfl
      | false =>
          have h' : (!(c.addStall n).registers.p.has Status.interruptDisable &&
            (c.addStall n).pending.isNone) = false := h
          simp only [request, h, h', Bool.false_eq_true, if_false]

end Famicom.Cpu.Processor

namespace Famicom.Cartridge.Board

/-- Following the picture changes nothing that the processor can read: a counter
of lines is in no window. -/
theorem read_step (b : Board) (line dot : UInt16) (rendering : Bool) (address : UInt16) :
    (b.step line dot rendering).read address = b.read address := by
  rcases b with ⟨c, circuit⟩
  unfold step
  split
  · cases circuit with
    | linear => rfl
    | serial s => rfl
    | counting s =>
        have hoffset : s.countLine.programOffset address = s.programOffset address := by
          unfold CountingCircuit.countLine
          split <;> rfl
        simp only [read, Circuit.programOffset, hoffset]
  · rfl

end Famicom.Cartridge.Board

namespace Famicom.Machine

open Audio Cartridge Cpu Video

variable {make : Make} {m : Machine}

/-! ## A cycle of sound and a dot of picture -/

theorem Bus.read_program {address : UInt16} (h : 0x8000 ≤ address) (b : Bus) :
    b.read address = (b.board.read address, b) := by
  rw [UInt16.le_iff_toNat_le] at h
  have hmemory : ¬ address < 0x2000 := by
    rw [UInt16.lt_iff_toNat_lt]
    exact Nat.not_lt.2 (Nat.le_trans (by decide) h)
  have hpicture : ¬ address < 0x4000 := by
    rw [UInt16.lt_iff_toNat_lt]
    exact Nat.not_lt.2 (Nat.le_trans (by decide) h)
  have hdevice : ¬ address < 0x4020 := by
    rw [UInt16.lt_iff_toNat_lt]
    exact Nat.not_lt.2 (Nat.le_trans (by decide) h)
  simp only [Bus.read, hmemory, hpicture, hdevice, if_false]

/-- The sound unit wants samples from the upper half of the address space only. -/
theorem le_request {u : SoundUnit} (h : u.InRange) {address : UInt16}
    (hrequest : u.request? = some address) : 0x8000 ≤ address := by
  unfold SoundUnit.request? Delta.request? at hrequest
  split at hrequest
  · cases hrequest
    exact h.delta.address
  · cases hrequest

/-- A cycle of sound touches nothing but the sound unit and the waiting of the
processor, and looks at nothing but the program. -/
theorem tickSound_eq (h : m.bus.sound.InRange) :
    m.tickSound =
      match m.bus.sound.tick.request? with
      | none => { m with bus := { m.bus with sound := m.bus.sound.tick } }
      | some address =>
        { cpu := m.cpu.addStall sampleCycles
          bus := { m.bus with
            sound := m.bus.sound.tick.deliver (m.bus.board.read address) } } := by
  unfold tickSound fetchSample
  cases hrequest : m.bus.sound.tick.request? with
  | none => rfl
  | some address =>
      have hread (b : Bus) := b.read_program (le_request h.tick hrequest)
      simp only [hread]

/-- A dot looks neither at the sound unit nor at the waiting of the processor. -/
theorem tickPicture_withSound (m : Machine) (sound : SoundUnit) :
    tickPicture { m with bus := { m.bus with sound } } =
      { m.tickPicture with bus := { m.tickPicture.bus with sound } } := by
  rw [tickPicture_eq, tickPicture_eq]

theorem tickPicture_addStall (m : Machine) (n : UInt32) :
    tickPicture { m with cpu := m.cpu.addStall n } =
      { m.tickPicture with cpu := m.tickPicture.cpu.addStall n } := by
  rw [tickPicture_eq, tickPicture_eq]
  simp only [Processor.request_addStall]
  split <;> rfl

/-- The program is the same before and after a dot. -/
theorem read_board_tickPicture (m : Machine) (address : UInt16) :
    m.tickPicture.bus.board.read address = m.bus.board.read address :=
  m.bus.board.read_step _ _ _ address

/-- **A cycle of sound and a dot of picture may change places.** -/
theorem tickSound_tickPicture (h : m.bus.sound.InRange) :
    m.tickSound.tickPicture = m.tickPicture.tickSound := by
  have hafter : m.tickPicture.bus.sound = m.bus.sound := rfl
  have hrange : m.tickPicture.bus.sound.InRange := h
  rw [tickSound_eq h, tickSound_eq hrange, hafter]
  cases m.bus.sound.tick.request? with
  | none => exact tickPicture_withSound m _
  | some address =>
      -- both orders fetch the same sample, and the processor waits for it in both
      simp only [read_board_tickPicture]
      have hsound := tickPicture_withSound { m with cpu := m.cpu.addStall sampleCycles }
        (m.bus.sound.tick.deliver (m.bus.board.read address))
      rw [tickPicture_addStall] at hsound
      exact hsound

/-! ## Any order -/

/-- The two that catch up. -/
inductive Turn where
  | sound
  | picture
deriving DecidableEq

/-- Let one of the two go on: the sound unit by a cycle, or the picture unit by a
dot. -/
def takeTurn (m : Machine) : Turn → Machine
  | .sound => m.tickSound
  | .picture => m.tickPicture

/-- Let the two take turns. -/
def takeTurns (order : List Turn) (m : Machine) : Machine := order.foldl takeTurn m

/-- One cycle of sound and three dots of picture, again and again. -/
def lockstep : (cycles : Nat) → List Turn
  | 0 => []
  | n + 1 => .sound :: .picture :: .picture :: .picture :: lockstep n

theorem count_lockstep (cycles : Nat) :
    (lockstep cycles).count .sound = cycles ∧ (lockstep cycles).count .picture = 3 * cycles := by
  induction cycles with
  | zero => exact ⟨rfl, rfl⟩
  | succ n ih =>
      obtain ⟨hsound, hpicture⟩ := ih
      constructor
      · simp [lockstep, hsound]
      · simp only [lockstep, List.count_cons, hpicture]
        simp
        omega

/-- A cycle of sound may be put off until after any number of dots. -/
theorem Intact.catchUpPicture_tickSound (h : Intact make m) (dots : Nat) :
    (m.catchUpPicture dots).tickSound = m.tickSound.catchUpPicture dots := by
  induction dots generalizing m with
  | zero => rfl
  | succ n ih =>
      show (m.tickPicture.catchUpPicture n).tickSound = m.tickSound.tickPicture.catchUpPicture n
      rw [ih h.tickPicture, tickSound_tickPicture h.bus.sound]

theorem Intact.catchUpPicture_catchUpSound (h : Intact make m) (dots cycles : Nat) :
    (m.catchUpPicture dots).catchUpSound cycles = (m.catchUpSound cycles).catchUpPicture dots := by
  induction cycles generalizing m with
  | zero => rfl
  | succ n ih =>
      show ((m.catchUpPicture dots).tickSound).catchUpSound n = _
      rw [h.catchUpPicture_tickSound, ih h.tickSound]
      rfl

/-- Of an order only the numbers of turns matter. -/
theorem Intact.takeTurns_eq (h : Intact make m) (order : List Turn) :
    m.takeTurns order =
      (m.catchUpSound (order.count .sound)).catchUpPicture (order.count .picture) := by
  induction order generalizing m with
  | nil => rfl
  | cons turn rest ih =>
      cases turn with
      | sound =>
          have hrest := ih h.tickSound
          simp only [List.count_cons_self,
            List.count_cons_of_ne (by decide : Turn.sound ≠ .picture)]
          exact hrest
      | picture =>
          have hrest := ih h.tickPicture
          have hsound : (.picture :: rest).count Turn.sound = rest.count .sound :=
            List.count_cons_of_ne (by decide)
          have hpicture : (.picture :: rest).count Turn.picture = rest.count .picture + 1 :=
            List.count_cons_self
          rw [hsound, hpicture]
          -- the dot that came first is put behind the cycles of sound
          calc m.takeTurns (.picture :: rest)
              = ((m.catchUpPicture 1).catchUpSound (rest.count .sound)).catchUpPicture
                  (rest.count .picture) := hrest
            _ = (m.catchUpSound (rest.count .sound)).catchUpPicture (rest.count .picture + 1) := by
                rw [h.catchUpPicture_catchUpSound, ← catchUpPicture_add, Nat.add_comm]

/-- **The order of catching up cannot be observed.** Whatever was done with a
machine before: if the sound unit is to run for some cycles and the picture unit
for three times as many dots, then every order of the single cycles and dots leads
to the machine that the two batches lead to, one after the other; above all the
order in which three dots follow each cycle. And so a step of the whole machine,
which catches up in batches, can be taken in any order as well. -/
theorem takeTurns_unobservable {c : Cartridge} {rate : UInt32} (h : Reachable c rate m) :
    (∀ (cycles : Nat) (order : List Turn),
      order.count .sound = cycles → order.count .picture = 3 * cycles →
        m.takeTurns order = (m.catchUpSound cycles).catchUpPicture (3 * cycles)) ∧
    (∀ cycles : Nat,
      m.takeTurns (lockstep cycles) = (m.catchUpSound cycles).catchUpPicture (3 * cycles)) ∧
    (∀ order : List Turn,
      order.count .sound = m.run.1.toNat → order.count .picture = 3 * m.run.1.toNat →
        (m.stepCpu.2.transferSprites.takeTurns order).requestIrq = m.run.2) := by
  have horder {n : Machine} (hn : Intact (makeOf c rate) n) (cycles : Nat) (order : List Turn)
      (hsound : order.count .sound = cycles) (hpicture : order.count .picture = 3 * cycles) :
      n.takeTurns order = (n.catchUpSound cycles).catchUpPicture (3 * cycles) := by
    rw [hn.takeTurns_eq, hsound, hpicture]
  refine ⟨?_, ?_, ?_⟩
  · intro cycles order hsound hpicture
    exact horder h.intact cycles order hsound hpicture
  · intro cycles
    obtain ⟨hsound, hpicture⟩ := count_lockstep cycles
    exact horder h.intact cycles _ hsound hpicture
  · intro order hsound hpicture
    -- a step of the processor and a transfer keep the invariant, so that it holds here too
    rw [horder h.intact.stepCpu.transferSprites _ order hsound hpicture]
    rfl

/-- A machine that was reset and has run a step, with the dots in front. -/
theorem takeTurns_unobservable_reset :
    let m := (perform .run (perform .reset (ofCartridge (.minimal .counting) defaultRate)).2).2
    Reachable (.minimal .counting) defaultRate m ∧
      (∀ (cycles : Nat) (order : List Turn),
        order.count .sound = cycles → order.count .picture = 3 * cycles →
          m.takeTurns order = (m.catchUpSound cycles).catchUpPicture (3 * cycles)) ∧
      (∀ cycles : Nat,
        m.takeTurns (lockstep cycles) = (m.catchUpSound cycles).catchUpPicture (3 * cycles)) ∧
      (∀ order : List Turn,
        order.count .sound = m.run.1.toNat → order.count .picture = 3 * m.run.1.toNat →
          (m.stepCpu.2.transferSprites.takeTurns order).requestIrq = m.run.2) := by
  intro m
  have h : Reachable (.minimal .counting) defaultRate m := .perform _ (.perform _ .cartridge)
  exact ⟨h, takeTurns_unobservable h⟩

end Famicom.Machine
