import Famicom.Proofs.Audio.Checked
import Famicom.Proofs.Cpu.Checked
import Famicom.Proofs.Machine.Loading
import Famicom.Proofs.Machine.Operation
import Famicom.Proofs.Video.Checked

/-!
# The checked machine

The machine once more, with every index and every sum of its parts checked. A
saved state may hold anything, but what is loaded keeps its widths
(`intact_loaded`), and the widths are kept by all operations. So no check fails,
in no sequence of operations on a machine that has loaded a state
(`checkedPerformAll_loaded`). There is one exception: the counts of cycles and
frames have an end, and a state may come close to it (`CounterEnds`).

* **bus** — the widths make all accesses harmless (`Bus.harmless`);
* **counters** — only the processor moves the count of cycles on (`cycles_run`);
* **steps** — a step and what follows from it agree with the plain ones
  (`Intact.checkedRun_agrees`);
* **operations** — so do all operations, one after another
  (`Intact.checkedPerformAll_agrees`).
-/

namespace Famicom

open Checked

namespace Joypad

def checkedRead (j : Joypad) : Checked (UInt8 × Joypad) :=
  if j.strobe then return (j.held &&& 1, j)
  else if j.index < 8 then do
    let index ← plus j.index 1
    return ((j.held >>> j.index) &&& 1, { j with index })
  else return (1, { j with index := 8 })

/-- The number of the next button may be any byte. -/
theorem checkedRead_eq (j : Joypad) : j.checkedRead = .ok j.read := by
  unfold checkedRead read
  split
  · rfl
  split
  · rename_i hindex
    have hlt : j.index.toNat < 8 := UInt8.lt_iff_toNat_lt.1 hindex
    rw [plus_byte (by simp only [UInt8.reduceToNat]; omega)]
    rfl
  · rfl

end Joypad

namespace Machine

open Audio Cartridge Cpu Video

/-! ## The bus -/

namespace Bus

def checkedReadPicture (address : UInt16) (b : Bus) : Checked (UInt8 × Bus) := do
  let (value, picture) ← b.picture.checkedReadRegister b.board address
  return (value, { b with picture })

def checkedWritePicture (address : UInt16) (value : UInt8) (b : Bus) : Checked Bus := do
  let (picture, board) ← b.picture.checkedWriteRegister b.board address value
  return { b with picture, board }

def checkedReadDevice (address : UInt16) (b : Bus) : Checked (UInt8 × Bus) :=
  match address with
  | 0x4016 => do
    let (value, joypad1) ← b.joypad1.checkedRead
    return (value, { b with joypad1 })
  | 0x4017 => do
    let (value, joypad2) ← b.joypad2.checkedRead
    return (value, { b with joypad2 })
  | _ => return b.readDevice address

def checkedWriteDevice (address : UInt16) (value : UInt8) (b : Bus) : Checked Bus :=
  match address with
  | 0x4014 => return { b with transferPage := some value }
  | 0x4016 =>
    return { b with joypad1 := b.joypad1.write value, joypad2 := b.joypad2.write value }
  | _ =>
    if address ≤ 0x4017 then do
      let sound ← b.sound.checkedWrite address value
      return { b with sound }
    else return b

def checkedRead (address : UInt16) (b : Bus) : Checked (UInt8 × Bus) :=
  if address < 0x2000 then do
    let value ← b.memory.readAt (address &&& 0x07FF).toNat
    return (value, b)
  else if address < 0x4000 then b.checkedReadPicture address
  else if address < 0x4020 then b.checkedReadDevice address
  else do
    let value ← b.board.checkedRead address
    return (value, b)

def checkedWrite (address : UInt16) (value : UInt8) (b : Bus) : Checked Bus :=
  if address < 0x2000 then do
    let memory ← b.memory.writeAt (address &&& 0x07FF).toNat value
    return { b with memory }
  else if address < 0x4000 then b.checkedWritePicture address value
  else if address < 0x4020 then b.checkedWriteDevice address value
  else do
    let board ← b.board.checkedWrite address value
    return { b with board }

instance : CheckedSpace Bus where
  read := checkedRead
  write := checkedWrite

variable {make : Make} {b : Bus}

theorem Intact.checkedReadPicture_eq (h : b.Intact make) (address : UInt16) :
    b.checkedReadPicture address = .ok (b.readPicture address) := by
  rw [checkedReadPicture, PictureUnit.checkedReadRegister_eq h.board]
  rfl

theorem Intact.checkedWritePicture_eq (h : b.Intact make) (address : UInt16) (value : UInt8) :
    b.checkedWritePicture address value = .ok (b.writePicture address value) := by
  rw [checkedWritePicture, PictureUnit.checkedWriteRegister_eq h.board]
  rfl

theorem checkedReadDevice_eq (b : Bus) (address : UInt16) :
    b.checkedReadDevice address = .ok (b.readDevice address) := by
  unfold checkedReadDevice
  split
  · rw [Joypad.checkedRead_eq]
    rfl
  · rw [Joypad.checkedRead_eq]
    rfl
  · rfl

theorem checkedWriteDevice_eq (b : Bus) (address : UInt16) (value : UInt8) :
    b.checkedWriteDevice address value = .ok (b.writeDevice address value) := by
  unfold checkedWriteDevice writeDevice
  split
  · rfl
  · rfl
  · simp only [SoundUnit.checkedWrite_eq, ok_bind]
    split <;> rfl

/-- Memory has 2 KiB, and eleven bits of the address count. -/
theorem toNat_memoryPlace (address : UInt16) :
    (address &&& 0x07FF).toNat = address.toNat % 0x800 :=
  Word.toNat_and_low address 11 rfl

theorem Intact.checkedRead_eq (h : b.Intact make) (address : UInt16) :
    b.checkedRead address = .ok (b.read address) := by
  have hplace : address.toNat % 0x800 < 0x800 := Nat.mod_lt _ (by decide)
  unfold Bus.checkedRead Bus.read
  split
  · rw [toNat_memoryPlace, Memory.readAt_ok _ hplace, Memory.read_mod]
    rfl
  split
  · exact h.checkedReadPicture_eq address
  split
  · exact b.checkedReadDevice_eq address
  · rw [Board.checkedRead_eq h.board]
    rfl

theorem Intact.checkedWrite_eq (h : b.Intact make) (address : UInt16) (value : UInt8) :
    b.checkedWrite address value = .ok (b.write address value) := by
  have hplace : address.toNat % 0x800 < 0x800 := Nat.mod_lt _ (by decide)
  unfold Bus.checkedWrite Bus.write
  split
  · rw [toNat_memoryPlace, Memory.writeAt_ok _ hplace, Memory.write_mod]
    rfl
  split
  · exact h.checkedWritePicture_eq address value
  split
  · exact b.checkedWriteDevice_eq address value
  · rw [Board.checkedWrite_eq h.board]
    rfl

/-- The widths make all accesses harmless. -/
theorem harmless (make : Make) : Harmless (Intact make) where
  toInvariant := intact_invariant make
  checkedRead address _ h := Intact.checkedRead_eq h address
  checkedWrite address value _ h := Intact.checkedWrite_eq h address value

end Bus

/-! ## Steps -/

def checkedCopySprites : (n : Nat) → (source : UInt16) → (target : UInt8) → Bus → Checked Bus
  | 0, _, _, b => return b
  | n + 1, source, target, b => do
    let (value, b) ← b.checkedRead source
    let picture ← b.picture.checkedWriteSprite target value
    checkedCopySprites n (source + 1) (target + 1) { b with picture }

def checkedTransferSprites (m : Machine) : Checked Machine :=
  match m.bus.transferPage with
  | none => return m
  | some page => do
    let target := m.bus.picture.spriteAddress
    let bus ← checkedCopySprites 256 (Word.ofBytes 0 page) target
      { m.bus with transferPage := none }
    let wait ← plus transferCycles (if m.cpu.cycles % 2 == 1 then 1 else 0)
    return { cpu := m.cpu.addStall wait, bus }

def checkedFetchSample (m : Machine) : Checked Machine :=
  match m.bus.sound.request? with
  | none => return m
  | some address => do
    let (byte, bus) ← m.bus.checkedRead address
    let sound ← bus.sound.checkedDeliver byte
    return { cpu := m.cpu.addStall sampleCycles, bus := { bus with sound } }

def checkedTickSound (m : Machine) : Checked Machine := do
  let sound ← m.bus.sound.checkedTick
  { m with bus := { m.bus with sound } }.checkedFetchSample

def checkedCatchUpSound : (cycles : Nat) → Machine → Checked Machine
  | 0, m => return m
  | n + 1, m => do
    let m ← m.checkedTickSound
    checkedCatchUpSound n m

def checkedTickPicture (m : Machine) : Checked Machine := do
  let picture ← m.bus.picture.checkedTick m.bus.board
  let board ← m.bus.board.checkedStep picture.beam.line picture.beam.dot picture.rendering
  let (nmi, picture) := picture.takeNmi
  return { cpu := if nmi then m.cpu.request .nmi else m.cpu
           bus := { m.bus with picture, board } }

def checkedCatchUpPicture : (dots : Nat) → Machine → Checked Machine
  | 0, m => return m
  | n + 1, m => do
    let m ← m.checkedTickPicture
    checkedCatchUpPicture n m

def checkedStepCpu (m : Machine) : Checked (UInt32 × Machine) := do
  let (cycles, cpu, bus) ← m.cpu.checkedStep m.bus
  return (cycles, { cpu, bus })

def checkedRun (m : Machine) : Checked (UInt32 × Machine) := do
  let (cycles, m) ← m.checkedStepCpu
  let n := cycles.toNat
  let m ← m.checkedTransferSprites
  let m ← m.checkedCatchUpSound n
  let m ← m.checkedCatchUpPicture (3 * n)
  return (cycles, m.requestIrq)

def checkedRunWhile (frame : UInt64) :
    (fuel : Nat) → (cycles : UInt64) → Machine → Checked (UInt64 × Machine)
  | 0, cycles, m => return (cycles, m)
  | fuel + 1, cycles, m => do
    let (n, m) ← m.checkedRun
    let cycles ← count cycles n.toUInt64
    if m.bus.picture.beam.frame == frame then checkedRunWhile frame fuel cycles m
    else return (cycles, m)

variable {make : Make} {m : Machine}

theorem checkedCopySprites_eq {b : Bus} (h : b.Intact make) (n : Nat) (source : UInt16)
    (target : UInt8) :
    checkedCopySprites n source target b = .ok (copySprites n source target b) := by
  -- a read may change the bus, but not its widths
  induction n generalizing source target b with
  | zero => rfl
  | succ n ih =>
      have hread := h.read source
      rw [checkedCopySprites, h.checkedRead_eq, ok_bind, copySprites_succ]
      simp only [PictureUnit.checkedWriteSprite_eq, ok_bind]
      exact ih (hread.withPicture (hread.picture.writeSprite target _)) _ _

theorem Intact.checkedTransferSprites_eq (h : Intact make m) :
    m.checkedTransferSprites = .ok m.transferSprites := by
  unfold Machine.checkedTransferSprites Machine.transferSprites
  cases m.bus.transferPage with
  | none => rfl
  | some page =>
      have hbus : { m.bus with transferPage := none }.Intact make := h.bus.of_eq rfl rfl rfl
      have hcopied := checkedCopySprites_eq hbus 256 (Word.ofBytes 0 page)
        m.bus.picture.spriteAddress
      have hwait : plus transferCycles (if m.cpu.cycles % 2 == 1 then 1 else 0) =
          .ok (if m.cpu.cycles % 2 == 1 then transferCycles + 1 else transferCycles) := by
        split <;> rfl
      simp only [hcopied, hwait, ok_bind, pure_eq]

theorem Intact.checkedFetchSample_eq (h : Intact make m) :
    m.checkedFetchSample = .ok m.fetchSample := by
  unfold Machine.checkedFetchSample Machine.fetchSample
  cases m.bus.sound.request? with
  | none => rfl
  | some address =>
      simp only [h.bus.checkedRead_eq, SoundUnit.checkedDeliver_eq, ok_bind]
      rfl

theorem Intact.checkedTickSound_eq (h : Intact make m) :
    m.checkedTickSound = .ok m.tickSound := by
  rw [checkedTickSound, SoundUnit.checkedTick_eq h.bus.sound]
  exact h.ticked.checkedFetchSample_eq

theorem Intact.checkedCatchUpSound_eq (h : Intact make m) (n : Nat) :
    m.checkedCatchUpSound n = .ok (m.catchUpSound n) := by
  induction n generalizing m with
  | zero => rfl
  | succ n ih =>
      rw [checkedCatchUpSound, h.checkedTickSound_eq, ok_bind]
      exact ih h.tickSound

/-! ### Counters -/

theorem cycles_stepCpu (m : Machine) :
    m.stepCpu.2.cpu.cycles = m.cpu.cycles + m.stepCpu.1.toUInt64 := by
  show (m.cpu.step m.bus).2.1.cycles = m.cpu.cycles + (m.cpu.step m.bus).1.toUInt64
  unfold Processor.step
  split <;> rfl

/-- What only the processor changes of itself: its registers and its count of cycles.
Others make it wait and fill its latch. -/
def own (m : Machine) : Registers × UInt64 := (m.cpu.registers, m.cpu.cycles)

theorem own_request (m : Machine) (i : Interrupt) : own { m with cpu := m.cpu.request i } = m.own :=
  Prod.ext (Processor.request_registers m.cpu i) (Processor.request_cycles m.cpu i)

theorem own_transferSprites (m : Machine) : m.transferSprites.own = m.own := by
  unfold Machine.transferSprites
  split <;> rfl

theorem own_catchUpSound (n : Nat) (m : Machine) : (m.catchUpSound n).own = m.own := by
  induction n generalizing m with
  | zero => rfl
  | succ n ih =>
      have htick : m.tickSound.own = m.own := by
        unfold Machine.tickSound Machine.fetchSample
        split <;> rfl
      exact (ih m.tickSound).trans htick

theorem own_catchUpPicture (n : Nat) (m : Machine) : (m.catchUpPicture n).own = m.own := by
  induction n generalizing m with
  | zero => rfl
  | succ n ih =>
      have htick : m.tickPicture.own = m.own := by
        rw [tickPicture_eq]
        simp only []
        split
        · exact own_request m .nmi
        · rfl
      exact (ih m.tickPicture).trans htick

theorem own_requestIrq (m : Machine) : m.requestIrq.own = m.own := by
  unfold Machine.requestIrq
  split
  · exact own_request m .irq
  · rfl

/-- The machine when its picture unit begins to follow a step. -/
def beforeDots (m : Machine) : Machine := m.stepCpu.2.transferSprites.catchUpSound m.run.1.toNat

/-- What follows from a step of the processor leaves that alone. -/
theorem own_run (m : Machine) : m.run.2.own = m.stepCpu.2.own := by
  have hrun : m.run.2 = (m.beforeDots.catchUpPicture (3 * m.run.1.toNat)).requestIrq := rfl
  rw [hrun, own_requestIrq, own_catchUpPicture, beforeDots, own_catchUpSound, own_transferSprites]

theorem registers_run (m : Machine) : m.run.2.cpu.registers = m.stepCpu.2.cpu.registers :=
  congrArg Prod.fst m.own_run

/-- What follows from a step of the processor takes no cycles of its own. -/
theorem cycles_run (m : Machine) : m.run.2.cpu.cycles = m.cpu.cycles + m.run.1.toUInt64 :=
  (congrArg Prod.snd m.own_run).trans m.cycles_stepCpu

/-- A counter ends in the step that begins here: the cycles go beyond their
greatest count, or the frames have come to theirs when a dot of the step begins. -/
def CounterEnds (m : Machine) : Prop :=
  2 ^ 64 ≤ m.cpu.cycles.toNat + m.run.1.toNat ∨
    ∃ k < 3 * m.run.1.toNat, (m.beforeDots.catchUpPicture k).bus.picture.beam.InLastFrame

/-- The machines at which the steps of a frame begin. -/
def stepsOfFrame (frame : UInt64) : (fuel : Nat) → Machine → List Machine
  | 0, _ => []
  | fuel + 1, m =>
    m :: if m.run.2.bus.picture.beam.frame == frame then stepsOfFrame frame fuel m.run.2 else []

/-- The machines at which the steps of an operation begin. -/
def steps : Operation → Machine → List Machine
  | .run, m => [m]
  | .runFrame, m => stepsOfFrame m.bus.picture.beam.frame stepsPerFrame m
  | _, _ => []

/-- The machines at which the steps of all operations begin. -/
def stepsAll : List Operation → Machine → List Machine
  | [], _ => []
  | op :: ops, m => steps op m ++ stepsAll ops (perform op m).2

/-! ### Agreement -/

theorem Intact.checkedTickPicture_agrees (h : Intact make m) :
    Agrees m.checkedTickPicture m.tickPicture m.bus.picture.beam.InLastFrame := by
  refine (PictureUnit.checkedTick_agrees h.bus.picture h.bus.board).bind (.of_eq ?_)
  rw [Board.checkedStep_eq, tickPicture_eq]
  rfl

theorem Intact.checkedCatchUpPicture_agrees (h : Intact make m) (n : Nat) :
    Agrees (m.checkedCatchUpPicture n) (m.catchUpPicture n)
      (∃ k < n, (m.catchUpPicture k).bus.picture.beam.InLastFrame) := by
  induction n generalizing m with
  | zero => exact .of_eq rfl
  | succ n ih =>
      refine (h.checkedTickPicture_agrees.mono ?_).bind ((ih h.tickPicture).mono ?_)
      · intro hlast
        exact ⟨0, Nat.succ_pos n, hlast⟩
      · rintro ⟨k, hk, hlast⟩
        exact ⟨k + 1, Nat.succ_lt_succ hk, hlast⟩

theorem Intact.checkedStepCpu_agrees (h : Intact make m) :
    Agrees m.checkedStepCpu m.stepCpu (2 ^ 64 ≤ m.cpu.cycles.toNat + m.stepCpu.1.toNat) :=
  (Processor.checkedStep_agrees (Bus.harmless make) h.bus m.cpu).bind (.of_eq rfl)

/-- A step with everything that follows from it agrees with the plain one. -/
theorem Intact.checkedRun_agrees (h : Intact make m) :
    Agrees m.checkedRun m.run m.CounterEnds := by
  have hstep := h.stepCpu
  have hsound : Intact make m.beforeDots := hstep.transferSprites.catchUpSound _
  refine (h.checkedStepCpu_agrees.mono .inl).bind ?_
  simp only [hstep.checkedTransferSprites_eq, ok_bind, hstep.transferSprites.checkedCatchUpSound_eq]
  exact ((hsound.checkedCatchUpPicture_agrees _).mono .inr).bind (.of_eq rfl)

/-- A sum of cycles that is not above the count of all cycles stays so, unless that
count ends. -/
theorem sum_le_cycles {cycles : UInt64} (hle : cycles.toNat ≤ m.cpu.cycles.toNat) :
    m.CounterEnds ∨ (cycles + m.run.1.toUInt64).toNat ≤ m.run.2.cpu.cycles.toNat := by
  by_cases hover : 2 ^ 64 ≤ m.cpu.cycles.toNat + m.run.1.toNat
  · exact .inl (.inl hover)
  · right
    rw [cycles_run, UInt64.toNat_add, UInt64.toNat_add, UInt32.toNat_toUInt64]
    omega

theorem checkedRunWhile_succ (frame : UInt64) (fuel : Nat) (cycles : UInt64) (m : Machine) :
    checkedRunWhile frame (fuel + 1) cycles m = (do
      let result ← m.checkedRun
      let sum ← count cycles result.1.toUInt64
      if result.2.bus.picture.beam.frame == frame then checkedRunWhile frame fuel sum result.2
      else return (sum, result.2)) :=
  rfl

theorem Intact.checkedRunWhile_agrees (h : Intact make m) (frame : UInt64) (fuel : Nat)
    {cycles : UInt64} {ended : Prop} (hcycles : ended ∨ cycles.toNat ≤ m.cpu.cycles.toNat) :
    Agrees (m.checkedRunWhile frame fuel cycles) (m.runWhile frame fuel cycles)
      (ended ∨ ∃ n ∈ m.stepsOfFrame frame fuel, n.CounterEnds) := by
  -- the widths carry from one step to the next; the sum of the cycles does not end
  -- before the count of all cycles, unless that one has ended in an earlier step
  induction fuel generalizing cycles m ended with
  | zero => exact .of_eq rfl
  | succ fuel ih =>
      have hfirst (hends : ended ∨ m.CounterEnds) :
          ended ∨ ∃ n ∈ m.stepsOfFrame frame (fuel + 1), n.CounterEnds :=
        hends.imp_right fun hends => ⟨m, .head _, hends⟩
      have hcount : Agrees (count cycles m.run.1.toUInt64) (cycles + m.run.1.toUInt64)
          (ended ∨ m.CounterEnds) := by
        refine (count_agrees cycles m.run.1.toUInt64).mono fun hover => ?_
        refine hcycles.imp_right fun hle => .inl ?_
        rw [UInt32.toNat_toUInt64] at hover
        omega
      have hnext : (ended ∨ m.CounterEnds) ∨
          (cycles + m.run.1.toUInt64).toNat ≤ m.run.2.cpu.cycles.toNat := by
        obtain hended | hle := hcycles
        · exact .inl (.inl hended)
        · exact (sum_le_cycles hle).imp_left .inr
      rw [checkedRunWhile_succ, runWhile_succ]
      refine (h.checkedRun_agrees.mono fun hends => hfirst (.inr hends)).bind ?_
      refine (hcount.mono hfirst).bind ?_
      by_cases hsame : (m.run.2.bus.picture.beam.frame == frame) = true
      · rw [if_pos hsame, if_pos hsame]
        refine (ih h.run hnext).mono ?_
        rintro (hends | ⟨n, hn, hends⟩)
        · exact hfirst hends
        · refine .inr ⟨n, .tail _ ?_, hends⟩
          rw [if_pos hsame]
          exact hn
      · rw [if_neg hsame, if_neg hsame]
        exact .of_eq rfl

/-! ## Operations -/

def checkedReset (m : Machine) : Checked Machine := do
  let sound ← m.bus.sound.checkedWrite 0x4015 0
  return { cpu := m.cpu.request .reset
           bus := { m.bus with picture := m.bus.picture.reset, sound } }

def checkedSetWork (data : Array UInt8) (m : Machine) : Checked Machine := do
  let board ← m.bus.board.checkedSetWork data
  return { m with bus := { m.bus with board } }

def checkedPerform : Operation → Machine → Checked (Option UInt64 × Machine)
  | .run, m => do
    let (cycles, m) ← m.checkedRun
    return (some cycles.toUInt64, m)
  | .runFrame, m => do
    let (cycles, m) ← m.checkedRunWhile m.bus.picture.beam.frame stepsPerFrame 0
    return (some cycles, m)
  | .reset, m => return (none, ← m.checkedReset)
  | .hold player buttons, m => return (none, m.hold player buttons)
  | .setWork data, m => return (none, ← m.checkedSetWork data)
  | .takeSamples, m => return (none, m.takeSamples.2)

def checkedPerformAll : List Operation → Machine → Checked (List (Option UInt64) × Machine)
  | [], m => return ([], m)
  | op :: ops, m => do
    let (answer, m) ← checkedPerform op m
    let (answers, m) ← checkedPerformAll ops m
    return (answer :: answers, m)

theorem Intact.checkedPerform_agrees (h : Intact make m) (op : Operation) :
    Agrees (checkedPerform op m) (Machine.perform op m) (∃ n ∈ steps op m, n.CounterEnds) := by
  cases op with
  | run =>
      refine (h.checkedRun_agrees.mono fun hends => ?_).bind (.of_eq rfl)
      exact ⟨m, .head _, hends⟩
  | runFrame =>
      have hframe : Agrees (m.checkedRunWhile m.bus.picture.beam.frame stepsPerFrame 0)
          m.runFrame (False ∨ ∃ n ∈ steps .runFrame m, n.CounterEnds) :=
        h.checkedRunWhile_agrees _ _ (.inr (Nat.zero_le _))
      rw [false_or] at hframe
      exact hframe.bind (.of_eq rfl)
  | reset =>
      rw [checkedPerform, checkedReset, SoundUnit.checkedWrite_eq]
      exact .of_eq rfl
  | hold player buttons => exact .of_eq rfl
  | setWork data =>
      rw [checkedPerform, checkedSetWork, Board.checkedSetWork_eq]
      exact .of_eq rfl
  | takeSamples => exact .of_eq rfl

theorem Intact.checkedPerformAll_agrees (h : Intact make m) (ops : List Operation) :
    Agrees (checkedPerformAll ops m) (performAll ops m)
      (∃ n ∈ stepsAll ops m, n.CounterEnds) := by
  induction ops generalizing m with
  | nil => exact .of_eq rfl
  | cons op ops ih =>
      refine ((h.checkedPerform_agrees op).mono ?_).bind
        (((ih (h.perform op)).mono ?_).bind (.of_eq rfl))
      · rintro ⟨n, hn, hends⟩
        exact ⟨n, List.mem_append_left _ hn, hends⟩
      · rintro ⟨n, hn, hends⟩
        exact ⟨n, List.mem_append_right _ hn, hends⟩

/-! ## Loaded machines -/

/-- Whatever was saved, a machine keeps all widths once it is loaded. -/
theorem intact_loaded {saved : SavedMachine} (h : m.bus.board.Accepts saved.board) :
    ∃ make, Intact make (m.loaded saved) := by
  -- only of the board something was checked; the other parts mask what they take
  have hboard : (m.bus.board.loaded saved.board).InRange := Board.inRange_loaded h
  have hsound := SoundUnit.inRange_restore saved.sound m.bus.sound
  have hpicture := PictureUnit.inRange_restore saved.picture
  exact ⟨⟨_, _⟩, Status.settled_restored _, hpicture, hsound, hboard, rfl, rfl⟩

/-- **A hostile state does no harm.** Take any machine and any saved state that it
accepts, and do with it afterwards what you like. Were every index and every sum
of the machine checked, then no index would be outside its table and nothing would
overflow: the checks would change nothing at all. Only where the count of cycles or
that of frames comes to its end in one of the steps, the checked machine stops. -/
theorem checkedPerformAll_loaded {m m' : Machine} {saved : SavedMachine}
    (h : load saved m = (.ok (), m')) (ops : List Operation) :
    checkedPerformAll ops m' = .ok (performAll ops m') ∨
      checkedPerformAll ops m' = .error .exhausted ∧ ∃ n ∈ stepsAll ops m', n.CounterEnds := by
  obtain ⟨haccepts, hload⟩ | ⟨_, hload⟩ := load_cases saved m
  · -- accepted: the masks of the loading have established the widths
    obtain ⟨make, hintact⟩ := intact_loaded haccepts
    rw [hload] at h
    cases h
    exact hintact.checkedPerformAll_agrees ops
  · -- refused: then it was not loaded
    rw [hload] at h
    cases h

/-- A state with indices and counters beyond their tables, an empty memory and a
beam outside the picture. -/
theorem checkedPerformAll_loaded_hostile :
    let m := ofCartridge (.minimal .serial) defaultRate
    let saved : SavedMachine :=
      { m.save with
        cpu := { m.cpu with stall := 0xFFFFFFFF }
        picture :=
          { m.save.picture with
            scroll := { v := 0xFFFF, t := 0xFFFF, fineX := 0xFF, second := true }
            beam := { line := 0xFFFF, dot := 0xFFFF, frame := 1, odd := true }
            selection := { m.save.picture.selection with count := 0xFF }
            sprites := #[] }
        sound :=
          { m.save.sound with
            pulse1 := { m.save.sound.pulse1 with step := 0xFF, duty := 0xFF }
            triangle := { m.save.sound.triangle with step := 0xFF, timer := 0xFFFF }
            delta := { m.save.sound.delta with level := 0xFF, bitsLeft := 0, remaining := 0xFFFF }
            sequencer := { m.save.sound.sequencer with step := 0xFF, counter := 0xFFFF } }
        bus := { memory := #[], joypad1 := ⟨0xFF, 0xFF, false⟩, joypad2 := ⟨0xFF, 0xFF, false⟩ } }
    load saved m = (.ok (), m.loaded saved) ∧
      ∀ ops : List Operation,
        checkedPerformAll ops (m.loaded saved) = .ok (performAll ops (m.loaded saved)) ∨
          checkedPerformAll ops (m.loaded saved) = .error .exhausted ∧
            ∃ n ∈ stepsAll ops (m.loaded saved), n.CounterEnds := by
  intro m saved
  -- the board of the state is the one that was saved
  have haccepts : m.bus.board.Accepts saved.board :=
    Board.InRange.accepts_save (intact_ofCartridge (.minimal .serial) defaultRate).bus.board rfl
  have hload : load saved m = (.ok (), m.loaded saved) := load_accepted haccepts
  exact ⟨hload, fun ops => checkedPerformAll_loaded hload ops⟩

end Machine

end Famicom
