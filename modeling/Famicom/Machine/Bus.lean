import Famicom.Audio.SoundUnit
import Famicom.Cartridge.Board
import Famicom.Cpu.AddressSpace
import Famicom.Joypad
import Famicom.Video.PictureUnit

/-!
# The bus of the machine

The bus owns everything but the processor and decodes its addresses:

* below $2000 there are 2 KiB of memory, four times;
* up to $3FFF there are the eight registers of the picture unit, again and again;
* from $4000 to $4017 there are the registers of the sound unit, the joypads and
  the latch that starts a transfer to sprite memory;
* from $4020 on there is the cartridge.
-/

namespace Famicom.Machine

open Audio Cartridge Cpu Video

structure Bus where
  memory : Memory UInt8 0x800
  picture : PictureUnit
  sound : SoundUnit
  board : Board
  joypad1 : Joypad
  joypad2 : Joypad
  /-- The page that is to be copied to sprite memory. -/
  transferPage : Option UInt8

namespace Bus

def powerOn (board : Board) (rate : UInt32) : Bus :=
  { memory := .filled 0, picture := .powerOn, sound := .powerOn rate, board
    joypad1 := .idle, joypad2 := .idle, transferPage := none }

def peek (b : Bus) (address : UInt16) : UInt8 := b.memory.read address.toNat

def readPicture (address : UInt16) (b : Bus) : UInt8 × Bus :=
  let ⟨memory, picture, sound, board, joypad1, joypad2, transferPage⟩ := b
  let (value, picture) := picture.readRegister board address
  (value, { memory, picture, sound, board, joypad1, joypad2, transferPage })

def writePicture (address : UInt16) (value : UInt8) (b : Bus) : Bus :=
  let ⟨memory, picture, sound, board, joypad1, joypad2, transferPage⟩ := b
  let (picture, board) := picture.writeRegister board address value
  { memory, picture, sound, board, joypad1, joypad2, transferPage }

def readDevice (address : UInt16) (b : Bus) : UInt8 × Bus :=
  match address with
  | 0x4015 =>
    let (value, sound) := b.sound.read address
    (value, { b with sound })
  | 0x4016 =>
    let (value, joypad1) := b.joypad1.read
    (value, { b with joypad1 })
  | 0x4017 =>
    let (value, joypad2) := b.joypad2.read
    (value, { b with joypad2 })
  | _ => (0, b)

def writeDevice (address : UInt16) (value : UInt8) (b : Bus) : Bus :=
  match address with
  | 0x4014 => { b with transferPage := some value }
  | 0x4016 => { b with joypad1 := b.joypad1.write value, joypad2 := b.joypad2.write value }
  | _ => if address ≤ 0x4017 then { b with sound := b.sound.write address value } else b

def read (address : UInt16) (b : Bus) : UInt8 × Bus :=
  if address < 0x2000 then (b.peek address, b)
  else if address < 0x4000 then b.readPicture address
  else if address < 0x4020 then b.readDevice address
  else (b.board.read address, b)

def write (address : UInt16) (value : UInt8) (b : Bus) : Bus :=
  if address < 0x2000 then { b with memory := b.memory.write address.toNat value }
  else if address < 0x4000 then b.writePicture address value
  else if address < 0x4020 then b.writeDevice address value
  else { b with board := b.board.write address value }

instance : AddressSpace Bus where
  read := Bus.read
  write := Bus.write

end Bus

structure SavedBus where
  memory : Array UInt8
  joypad1 : Joypad
  joypad2 : Joypad

namespace Bus

def save (b : Bus) : SavedBus :=
  { memory := b.memory.image, joypad1 := b.joypad1, joypad2 := b.joypad2 }

/-- Restore memory and joypads. A short image is followed by zeros, and no
transfer is under way. -/
def restore (saved : SavedBus) (b : Bus) : Bus :=
  { b with
    memory := .ofImage 0 saved.memory
    joypad1 := saved.joypad1
    joypad2 := saved.joypad2
    transferPage := none }

end Bus

end Famicom.Machine
