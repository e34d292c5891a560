import Famicom.Cpu.Processor
import Famicom.Machine.Bus
import Famicom.Numeral
import Famicom.Video.Rendering

/-!
# The machine

The processor takes one step at a time and the rest of the machine catches up:
for every cycle of the step the sound unit runs once and the picture unit three
times. Between them the machine moves bytes on its own: a page to sprite memory,
and the samples that the sound unit wants. Both make the processor wait.
-/

namespace Famicom

open Audio Cartridge Cpu Machine Video

structure Machine where
  cpu : Processor
  bus : Bus

inductive MachineError where
  | cartridge (cause : CartridgeError)
deriving DecidableEq

def MachineError.message : MachineError → String
  | cartridge cause => "cartridge: " ++ cause.message

namespace Machine

def defaultRate : UInt32 := 48000
/-- Cycles of waiting for a transfer to sprite memory. -/
def transferCycles : UInt32 := 513
def sampleCycles : UInt32 := 4

/-- Plug in a board and switch the machine on. -/
def ofBoard (board : Board) (rate : UInt32) : Machine :=
  let (cpu, bus) := Processor.powerOff.powerOn (Bus.powerOn board rate)
  { cpu, bus }

def ofCartridge (c : Cartridge) (rate : UInt32) : Machine := ofBoard (.ofCartridge c) rate

def ofImage (image : Array UInt8) (rate : UInt32) : Except MachineError Machine :=
  match Cartridge.ofImage image with
  | .ok c => return ofCartridge c rate
  | .error cause => throw (.cartridge cause)

/-- Press the reset button. The processor takes the reset vector in its next
step that does not wait, the picture unit starts over and the channels are
silent. -/
def reset (m : Machine) : Machine :=
  { cpu := m.cpu.request .reset
    bus := { m.bus with picture := m.bus.picture.reset, sound := m.bus.sound.write 0x4015 0 } }

/-! ## Transfers -/

/-- Copy bytes from consecutive addresses of the bus to sprite memory, around
the end of which both wrap. -/
def copySprites : (n : Nat) → (source : UInt16) → (target : UInt8) → Bus → Bus
  | 0, _, _, b => b
  | n + 1, source, target, b =>
    let (value, b) := b.read source
    let b := { b with picture := b.picture.writeSprite target value }
    copySprites n (source + 1) (target + 1) b

/-- Carry out the transfer to sprite memory that was asked for, if any. The
processor waits one cycle longer if it is in an odd one. -/
def transferSprites (m : Machine) : Machine :=
  match m.bus.transferPage with
  | none => m
  | some page =>
    let target := m.bus.picture.spriteAddress
    let bus := { m.bus with transferPage := none }
    let wait := if m.cpu.cycles % 2 == 1 then transferCycles + 1 else transferCycles
    { cpu := m.cpu.addStall wait, bus := copySprites 256 (Word.ofBytes 0 page) target bus }

@[inline] def fetchSample (m : Machine) : Machine :=
  match m.bus.sound.request? with
  | none => m
  | some address =>
    let ⟨cpu, bus⟩ := m
    let (byte, bus) := bus.read address
    { cpu := cpu.addStall sampleCycles, bus := { bus with sound := bus.sound.deliver byte } }

/-! ## Catching up -/

@[inline] def tickSound (m : Machine) : Machine :=
  { m with bus := { m.bus with sound := m.bus.sound.tick } }.fetchSample

/-- One dot of the picture unit. The board follows it, and the processor gets
the blanking interrupt. -/
@[inline] def tickPicture (m : Machine) : Machine :=
  let ⟨cpu, ⟨memory, picture, sound, board, joypad1, joypad2, transferPage⟩⟩ := m
  let picture := picture.tick board
  let board := board.step picture.beam.line picture.beam.dot picture.rendering
  let (nmi, picture) := picture.takeNmi
  { cpu := if nmi then cpu.request .nmi else cpu
    bus := { memory, picture, sound, board, joypad1, joypad2, transferPage } }

def catchUpSound : (cycles : Nat) → Machine → Machine
  | 0, m => m
  | n + 1, m => catchUpSound n m.tickSound

def catchUpPicture : (dots : Nat) → Machine → Machine
  | 0, m => m
  | n + 1, m => catchUpPicture n m.tickPicture

/-- The dots of a step may be drawn in several goes. -/
theorem catchUpPicture_add (a b : Nat) (m : Machine) :
    m.catchUpPicture (a + b) = (m.catchUpPicture a).catchUpPicture b := by
  induction a generalizing m with
  | zero => rw [Nat.zero_add]; rfl
  | succ a ih =>
      rw [Nat.succ_add]
      exact ih m.tickPicture

/-- Request an interrupt for as long as somebody wants one. -/
def requestIrq (m : Machine) : Machine :=
  if m.bus.sound.irq || m.bus.board.request then { m with cpu := m.cpu.request .irq } else m

/-- One step of the processor, without what follows from it. -/
def stepCpu (m : Machine) : UInt32 × Machine :=
  let ⟨cpu, bus⟩ := m
  let (cycles, cpu, bus) := cpu.step bus
  (cycles, { cpu, bus })

/-- One step of the processor, and everything else up to the same time. The
first component is the number of cycles. -/
def run (m : Machine) : UInt32 × Machine :=
  let (cycles, m) := m.stepCpu
  let n := cycles.toNat
  (cycles, (m.transferSprites.catchUpSound n).catchUpPicture (3 * n) |>.requestIrq)

/-- At most `fuel` steps, until the frame is not that any more. The first
component is the number of cycles on top of `cycles`. -/
def runWhile (frame : UInt64) : (fuel : Nat) → (cycles : UInt64) → Machine → UInt64 × Machine
  | 0, cycles, m => (cycles, m)
  | fuel + 1, cycles, m =>
    let (n, m) := m.run
    let cycles := cycles + n.toUInt64
    if m.bus.picture.beam.frame == frame then runWhile frame fuel cycles m else (cycles, m)

/-- More steps than a frame can have. A frame has at most 89342 dots, and every
step takes at least three of them. -/
def stepsPerFrame : Nat := 29781

def runFrame (m : Machine) : UInt64 × Machine :=
  runWhile m.bus.picture.beam.frame stepsPerFrame 0 m

/-! ## The outside -/

/-- The frames since power-on or reset. -/
def frames (m : Machine) : UInt64 := m.bus.picture.beam.frame

/-- Hold these buttons of the joypad of a player. There are two players. -/
def hold (player : Nat) (buttons : UInt8) (m : Machine) : Machine :=
  match player with
  | 0 => { m with bus := { m.bus with joypad1 := m.bus.joypad1.hold buttons } }
  | 1 => { m with bus := { m.bus with joypad2 := m.bus.joypad2.hold buttons } }
  | _ => m

def takeSamples (m : Machine) : Array Float32 × Machine :=
  let ⟨cpu, bus⟩ := m
  let (samples, sound) := bus.sound.takeSamples
  (samples, { cpu, bus := { bus with sound } })

/-- Work memory, if the cartridge keeps it. -/
def battery? (m : Machine) : Option (Array UInt8) :=
  let c := m.bus.board.cartridge
  if c.battery then some c.work.image else none

def setWork (data : Array UInt8) (m : Machine) : Machine :=
  { m with bus := { m.bus with board := m.bus.board.setWork data } }

/-! ## Saved machines -/

end Machine

structure SavedMachine where
  cpu : Processor
  picture : SavedPicture
  sound : SoundState
  board : SavedBoard
  bus : SavedBus

namespace Machine

def save (m : Machine) : SavedMachine :=
  { cpu := m.cpu
    picture := m.bus.picture.save
    sound := m.bus.sound.save
    board := m.bus.board.save
    bus := m.bus.save }

/-- Load a machine that was saved with the same cartridge. The board comes first,
since nothing else can be refused. -/
def load (saved : SavedMachine) : Loading Machine MachineError Unit := do
  ((Board.load saved.board).mapError MachineError.cartridge).within (·.bus.board)
    fun board m => { m with bus := { m.bus with board } }
  modify fun m => { m with cpu := saved.cpu.restore }
  modify fun m => { m with bus := { m.bus with picture := .restore saved.picture } }
  modify fun m => { m with bus := { m.bus with sound := m.bus.sound.restore saved.sound } }
  modify fun m => { m with bus := m.bus.restore saved.bus }

def restore (saved : SavedMachine) (m : Machine) : Except MachineError Machine :=
  (load saved).complete m

/-! ## Names -/

def panel (m : Machine) : Panel :=
  [("frame_count", .wide m.frames), ("controller1", .byte m.bus.joypad1.held),
   ("controller2", .byte m.bus.joypad2.held)]

/-- The address that a number in decimal, or in hexadecimal after `0x` or a
dollar sign, stands for. -/
def address? (name : List Char) : Option UInt16 :=
  let number := match name with
    | '0' :: 'x' :: digits => Numeral.ofChars? 16 0x10000 digits
    | '$' :: digits => Numeral.ofChars? 16 0x10000 digits
    | digits => Numeral.ofChars? 10 0x10000 digits
  number.map (·.toUInt16)

def behind? (part name : String) : Option String :=
  if (part ++ ".").toList.isPrefixOf name.toList then
    some (String.ofList (name.toList.drop (part.length + 1)))
  else none

/-- A value by its name. Names of parts of the machine stand behind the part and
a dot, and so do addresses of memory. -/
def read? (m : Machine) (name : String) : Option Reading :=
  match behind? "cpu" name, behind? "ppu" name, behind? "apu" name, behind? "mapper" name,
    behind? "memory" name with
  | some rest, _, _, _, _ => m.cpu.panel.read? rest
  | _, some rest, _, _, _ => m.bus.picture.panel.read? rest
  | _, _, some rest, _, _ => m.bus.sound.panel.read? rest
  | _, _, _, some rest, _ => m.bus.board.read? rest
  | _, _, _, _, some rest => (address? rest.toList).map fun a => .byte (m.bus.peek a)
  | none, none, none, none, none => m.panel.read? name

def names : List String :=
  ["cpu.<6502_paths>", "ppu.<2c02_paths>", "apu.<2a03_paths>", "mapper.<board_paths>",
   "memory.<address>", "frame_count", "controller1", "controller2"]

end Machine

end Famicom
