import Famicom.Machine.Machine
import Famicom.Proofs.Audio.InRange
import Famicom.Proofs.Cartridge.InRange
import Famicom.Proofs.Cpu.Morphism
import Famicom.Proofs.Cpu.Settled
import Famicom.Proofs.Video.InRange

/-!
# The invariant of the machine

All parts keep their widths, and what was built into the machine stays: its board
and the wiring of its sound unit (`Machine.Intact`).

* **accesses** — the processor cannot break the invariant (`Bus.intact_invariant`);
* **preservation** — a step with everything that follows keeps it
  (`Machine.Intact.run`), and so does everything that is done from outside;
* **transfers** — a transfer that a step asks for is over at its end: between
  steps no page is latched (`Machine.transferPage_run`).
-/

namespace Famicom.Machine

open Audio Cartridge Cpu Video

/-- What was built into a machine. -/
structure Make where
  board : Board.Make
  sound : SoundUnit.Make

/-! ## The bus -/

namespace Bus

/-- All parts keep their widths, and the machine is the one that was built. -/
structure Intact (make : Make) (b : Bus) : Prop where
  picture : b.picture.InRange
  sound : b.sound.InRange
  board : b.board.InRange
  boardMake : b.board.make = make.board
  soundMake : b.sound.make = make.sound

variable {make : Make} {b : Bus}

theorem intact_powerOn {board : Board} (h : board.InRange) (rate : UInt32) :
    Intact ⟨board.make, (SoundUnit.powerOn rate).make⟩ (powerOn board rate) :=
  ⟨PictureUnit.inRange_powerOn, SoundUnit.inRange_powerOn rate, h, rfl, rfl⟩

theorem Intact.withPicture (h : Intact make b) {picture : PictureUnit} (hp : picture.InRange) :
    Intact make { b with picture } :=
  ⟨hp, h.sound, h.board, h.boardMake, h.soundMake⟩

theorem Intact.withSound (h : Intact make b) {sound : SoundUnit} (hs : sound.InRange)
    (hmake : sound.make = b.sound.make) : Intact make { b with sound } :=
  ⟨h.picture, hs, h.board, h.boardMake, hmake.trans h.soundMake⟩

theorem Intact.withBoard (h : Intact make b) {board : Board} (hb : board.InRange)
    (hmake : board.make = b.board.make) : Intact make { b with board } :=
  ⟨h.picture, h.sound, hb, hmake.trans h.boardMake, h.soundMake⟩

/-- The invariant says nothing about memory, joypads and transfers. -/
theorem Intact.of_eq (h : Intact make b) {b' : Bus} (hp : b'.picture = b.picture)
    (hs : b'.sound = b.sound) (hb : b'.board = b.board) : Intact make b' :=
  ⟨hp ▸ h.picture, hs ▸ h.sound, hb ▸ h.board, hb ▸ h.boardMake, hs ▸ h.soundMake⟩

/-! ### Accesses -/

theorem store_make (p : PictureUnit) (board : Board) (address : UInt16) (value : UInt8) :
    (p.store board address value).2.make = board.make := by
  unfold PictureUnit.store
  simp only []
  split
  · exact Board.make_writePattern _ _ _
  split <;> rfl

theorem store_inRange (p : PictureUnit) {board : Board} (h : board.InRange) (address : UInt16)
    (value : UInt8) : (p.store board address value).2.InRange := by
  unfold PictureUnit.store
  simp only []
  split
  · exact Board.InRange.writePattern h _ _
  split
  · exact h
  · exact h

/-- Of the registers of the picture unit only the data register reaches the
board. -/
theorem writeRegister_board (p : PictureUnit) (board : Board) (register : UInt16) (value : UInt8) :
    (p.writeRegister board register value).2 = board ∨
      (p.writeRegister board register value).2 =
        (PictureUnit.store board p.scroll.v value { p with lastWrite := value }).2 := by
  unfold PictureUnit.writeRegister
  simp only []
  split
  case h_7 => exact .inr rfl
  all_goals exact .inl rfl

theorem Intact.readPicture (h : Intact make b) (address : UInt16) :
    Intact make (b.readPicture address).2 :=
  h.withPicture (h.picture.readRegister b.board address)

theorem Intact.writePicture (h : Intact make b) (address : UInt16) (value : UInt8) :
    Intact make (b.writePicture address value) := by
  have hpicture := h.picture.writeRegister b.board address value
  -- what the picture unit does to its registers cannot touch the board
  obtain hboard | hboard := writeRegister_board b.picture b.board address value
  · exact (h.withPicture hpicture).of_eq rfl rfl hboard
  · refine ⟨hpicture, h.sound, ?_, ?_, h.soundMake⟩
    · show (b.picture.writeRegister b.board address value).2.InRange
      rw [hboard]
      exact store_inRange _ h.board _ _
    · show (b.picture.writeRegister b.board address value).2.make = make.board
      rw [hboard, store_make]
      exact h.boardMake

theorem Intact.readDevice (h : Intact make b) (address : UInt16) :
    Intact make (b.readDevice address).2 := by
  unfold Bus.readDevice
  split
  · exact h.withSound (h.sound.read _) (SoundUnit.make_read _ _)
  · exact h.of_eq rfl rfl rfl
  · exact h.of_eq rfl rfl rfl
  · exact h

theorem Intact.writeDevice (h : Intact make b) (address : UInt16) (value : UInt8) :
    Intact make (b.writeDevice address value) := by
  unfold Bus.writeDevice
  split
  · exact h.of_eq rfl rfl rfl
  · exact h.of_eq rfl rfl rfl
  split
  · exact h.withSound (h.sound.write _ _) (SoundUnit.make_write _ _ _)
  · exact h

theorem Intact.read (h : Intact make b) (address : UInt16) : Intact make (b.read address).2 := by
  unfold Bus.read
  split
  · exact h
  split
  · exact h.readPicture address
  split
  · exact h.readDevice address
  · exact h

theorem Intact.write (h : Intact make b) (address : UInt16) (value : UInt8) :
    Intact make (b.write address value) := by
  unfold Bus.write
  split
  · exact h.of_eq rfl rfl rfl
  split
  · exact h.writePicture address value
  split
  · exact h.writeDevice address value
  · exact h.withBoard (Board.InRange.write h.board _ _) (Board.make_write _ _ _)

/-- The processor cannot break the invariant. -/
theorem intact_invariant (make : Make) : Invariant (Intact make) where
  read address _ h := Intact.read h address
  write address value _ h := Intact.write h address value

/-- Reading does not ask for a transfer. -/
theorem transferPage_read (b : Bus) (address : UInt16) :
    (b.read address).2.transferPage = b.transferPage := by
  unfold Bus.read
  split
  · rfl
  split
  · rfl
  split
  · unfold Bus.readDevice
    split <;> rfl
  · rfl

end Bus

/-! ## The machine -/

/-- The invariant of the whole machine. -/
structure Intact (make : Make) (m : Machine) : Prop where
  cpu : m.cpu.registers.p.Settled
  bus : m.bus.Intact make

variable {make : Make} {m : Machine}

theorem intact_mk {cpu : Processor} {bus : Bus} (hcpu : cpu.registers.p.Settled)
    (hbus : bus.Intact make) : Intact make ⟨cpu, bus⟩ :=
  ⟨hcpu, hbus⟩

/-- The make of a machine with a cartridge at an output rate. -/
def makeOf (c : Cartridge) (rate : UInt32) : Make :=
  { board := (Board.ofCartridge c).make, sound := (SoundUnit.powerOn rate).make }

theorem intact_ofCartridge (c : Cartridge) (rate : UInt32) :
    Intact (makeOf c rate) (ofCartridge c rate) := by
  have hbus : (Bus.powerOn (.ofCartridge c) rate).Intact (makeOf c rate) :=
    Bus.intact_powerOn (Board.inRange_ofCartridge c) rate
  have hcpu := Processor.powerOn_settled Processor.powerOff (Bus.powerOn (.ofCartridge c) rate)
  exact ⟨hcpu, powerOn_invariant (Bus.intact_invariant _) Processor.powerOff hbus⟩

/-! ### Steps -/

theorem copySprites_succ (n : Nat) (source : UInt16) (target : UInt8) (b : Bus) :
    copySprites (n + 1) source target b =
      copySprites n (source + 1) (target + 1)
        { (b.read source).2 with
          picture := (b.read source).2.picture.writeSprite target (b.read source).1 } :=
  rfl

theorem Intact.copySprites {b : Bus} (h : b.Intact make) (n : Nat) (source : UInt16)
    (target : UInt8) : (copySprites n source target b).Intact make := by
  induction n generalizing source target b with
  | zero => exact h
  | succ n ih =>
      have hread := h.read source
      rw [copySprites_succ]
      exact ih (hread.withPicture (hread.picture.writeSprite target _)) _ _

theorem transferPage_copySprites (n : Nat) (source : UInt16) (target : UInt8) (b : Bus) :
    (copySprites n source target b).transferPage = b.transferPage := by
  induction n generalizing source target b with
  | zero => rfl
  | succ n ih =>
      rw [copySprites_succ, ih]
      exact b.transferPage_read source

theorem Intact.transferSprites (h : Intact make m) : Intact make m.transferSprites := by
  unfold Machine.transferSprites
  split
  · exact h
  · have hbus : { m.bus with transferPage := none }.Intact make := h.bus.of_eq rfl rfl rfl
    exact intact_mk h.cpu (Intact.copySprites hbus 256 _ _)

theorem transferSprites_idle {m : Machine} (h : m.bus.transferPage = none) :
    m.transferSprites = m := by
  unfold Machine.transferSprites
  rw [h]

theorem transferPage_transferSprites (m : Machine) :
    m.transferSprites.bus.transferPage = none := by
  unfold Machine.transferSprites
  split
  · assumption
  · simp only [transferPage_copySprites]

theorem Intact.fetchSample (h : Intact make m) : Intact make m.fetchSample := by
  unfold Machine.fetchSample
  split
  · exact h
  · rename_i address _
    have hread := h.bus.read address
    exact ⟨h.cpu, hread.withSound (hread.sound.deliver _) (SoundUnit.make_deliver _ _)⟩

theorem transferPage_fetchSample (m : Machine) :
    m.fetchSample.bus.transferPage = m.bus.transferPage := by
  unfold Machine.fetchSample
  split
  · rfl
  · exact m.bus.transferPage_read _

/-- A cycle of the sound unit, before a sample is fetched. -/
theorem Intact.ticked (h : Intact make m) :
    Intact make { m with bus := { m.bus with sound := m.bus.sound.tick } } :=
  ⟨h.cpu, h.bus.withSound h.bus.sound.tick (SoundUnit.make_tick _)⟩

theorem Intact.tickSound (h : Intact make m) : Intact make m.tickSound := h.ticked.fetchSample

theorem Intact.catchUpSound (h : Intact make m) (n : Nat) : Intact make (m.catchUpSound n) := by
  induction n generalizing m with
  | zero => exact h
  | succ n ih => exact ih h.tickSound

theorem transferPage_catchUpSound (n : Nat) (m : Machine) :
    (m.catchUpSound n).bus.transferPage = m.bus.transferPage := by
  induction n generalizing m with
  | zero => rfl
  | succ n ih => exact (ih m.tickSound).trans (transferPage_fetchSample _)

theorem tickPicture_eq (m : Machine) :
    m.tickPicture =
      let picture := m.bus.picture.tick m.bus.board
      { cpu := if picture.takeNmi.1 then m.cpu.request .nmi else m.cpu
        bus :=
          { m.bus with
            picture := picture.takeNmi.2
            board := m.bus.board.step picture.beam.line picture.beam.dot picture.rendering } } :=
  rfl

theorem settled_request {c : Processor} (h : c.registers.p.Settled) (i : Interrupt) :
    (c.request i).registers.p.Settled := by
  rw [Processor.request_registers]
  exact h

theorem Intact.tickPicture (h : Intact make m) : Intact make m.tickPicture := by
  have hpicture := h.bus.picture.tick m.bus.board
  rw [tickPicture_eq]
  simp only []
  constructor
  · show (if _ then m.cpu.request .nmi else m.cpu).registers.p.Settled
    split
    · exact settled_request h.cpu .nmi
    · exact h.cpu
  · exact (h.bus.withPicture hpicture.takeNmi).withBoard (Board.InRange.step h.bus.board _ _ _)
      (Board.make_step _ _ _ _)

theorem Intact.catchUpPicture (h : Intact make m) (n : Nat) :
    Intact make (m.catchUpPicture n) := by
  induction n generalizing m with
  | zero => exact h
  | succ n ih => exact ih h.tickPicture

theorem transferPage_catchUpPicture (n : Nat) (m : Machine) :
    (m.catchUpPicture n).bus.transferPage = m.bus.transferPage := by
  induction n generalizing m with
  | zero => rfl
  | succ n ih => exact ih m.tickPicture

theorem Intact.requestIrq (h : Intact make m) : Intact make m.requestIrq := by
  unfold Machine.requestIrq
  split
  · exact ⟨settled_request h.cpu .irq, h.bus⟩
  · exact h

theorem transferPage_requestIrq (m : Machine) :
    m.requestIrq.bus.transferPage = m.bus.transferPage := by
  unfold Machine.requestIrq
  split <;> rfl

theorem Intact.stepCpu (h : Intact make m) : Intact make m.stepCpu.2 :=
  ⟨Processor.step_settled h.cpu m.bus, step_invariant (Bus.intact_invariant make) m.cpu h.bus⟩

/-- A step with everything that follows from it keeps the invariant. -/
theorem Intact.run (h : Intact make m) : Intact make m.run.2 :=
  ((h.stepCpu.transferSprites.catchUpSound _).catchUpPicture _).requestIrq

/-- After a step no transfer is left to be made. -/
theorem transferPage_run (m : Machine) : m.run.2.bus.transferPage = none := by
  show (requestIrq _).bus.transferPage = none
  rw [transferPage_requestIrq, transferPage_catchUpPicture, transferPage_catchUpSound,
    transferPage_transferSprites]

theorem runWhile_succ (frame : UInt64) (fuel : Nat) (cycles : UInt64) (m : Machine) :
    runWhile frame (fuel + 1) cycles m =
      if m.run.2.bus.picture.beam.frame == frame then
        runWhile frame fuel (cycles + m.run.1.toUInt64) m.run.2
      else (cycles + m.run.1.toUInt64, m.run.2) :=
  rfl

/-- What every step establishes holds at the end of a frame. -/
theorem runWhile_induction {P : Machine → Prop} (hstep : ∀ m, P m → P m.run.2) (frame : UInt64)
    (fuel : Nat) (cycles : UInt64) {m : Machine} (h : P m) :
    P (runWhile frame fuel cycles m).2 := by
  induction fuel generalizing cycles m with
  | zero => exact h
  | succ fuel ih =>
      rw [runWhile_succ]
      split
      · exact ih _ (hstep m h)
      · exact hstep m h

/-! ### From outside -/

theorem Intact.reset (h : Intact make m) : Intact make m.reset :=
  ⟨settled_request h.cpu .reset,
    (h.bus.withPicture h.bus.picture.reset).withSound (h.bus.sound.write _ _)
      (SoundUnit.make_write _ _ _)⟩

theorem Intact.hold (h : Intact make m) (player : Nat) (buttons : UInt8) :
    Intact make (m.hold player buttons) := by
  unfold Machine.hold
  split
  · exact ⟨h.cpu, h.bus.of_eq rfl rfl rfl⟩
  · exact ⟨h.cpu, h.bus.of_eq rfl rfl rfl⟩
  · exact h

theorem Intact.setWork (h : Intact make m) (data : Array UInt8) : Intact make (m.setWork data) :=
  ⟨h.cpu, h.bus.withBoard (Board.InRange.setWork h.bus.board data) rfl⟩

theorem Intact.takeSamples (h : Intact make m) : Intact make m.takeSamples.2 :=
  ⟨h.cpu, h.bus.withSound h.bus.sound.takeSamples rfl⟩

end Famicom.Machine
