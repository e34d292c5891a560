import Famicom.Cartridge.Board
import Famicom.Reading
import Famicom.Video.Beam
import Famicom.Video.Colour
import Famicom.Video.NmiLine
import Famicom.Video.Scroll
import Famicom.Video.Sprite

/-!
# The picture unit

The picture unit owns nametables, palette, sprite memory and the screen, and
reaches the patterns and the mirroring through the board of the cartridge. The
processor talks to it through eight registers.
-/

namespace Famicom.Video

open Cartridge

structure PictureState where
  control : UInt8
  mask : UInt8
  spriteAddress : UInt8
  lastWrite : UInt8
  spriteZeroHit : Bool
  spriteOverflow : Bool
  scroll : Scroll
  /-- The byte that the next data read gives. -/
  readBuffer : UInt8
  beam : Beam
  tile : TileFetch
  selection : Selection
  nmi : NmiLine
deriving DecidableEq

structure PictureUnit extends PictureState where
  nametables : Memory UInt8 0x1000
  palette : Memory UInt8 32
  sprites : SpriteMemory
  /-- Light of every pixel, line by line. -/
  screen : Memory UInt32 61440
deriving DecidableEq

/-- The palette cell behind an address. The four backdrop cells of the sprite
palettes are those of the background palettes. -/
@[inline] def paletteCell (address : Nat) : Nat :=
  let cell := address % 32
  if cell ≥ 16 ∧ cell % 4 = 0 then cell - 16 else cell

namespace PictureUnit

/-- Start with the last dot before vertical blanking. Control, mask and sprite
address are cleared. -/
def reset (p : PictureUnit) : PictureUnit :=
  { p with
    beam := { p.beam with line := 240, dot := 340, frame := 0 }
    control := 0
    mask := 0
    spriteAddress := 0
    nmi := p.nmi.setOutput false
    scroll := p.scroll.selectTable 0 }

def powerOn : PictureUnit :=
  reset
    { control := 0, mask := 0, spriteAddress := 0, lastWrite := 0
      spriteZeroHit := false, spriteOverflow := false
      scroll := { v := 0, t := 0, fineX := 0, second := false }
      readBuffer := 0
      beam := { line := 0, dot := 0, frame := 0, odd := false }
      tile := .blank, selection := .empty, nmi := .idle
      nametables := .filled 0, palette := .filled 0, sprites := .filled 0, screen := .filled 0 }

@[inline] def rendering (p : PictureUnit) : Bool := hasBits p.mask (maskBackground ||| maskSprites)

@[inline] def takeNmi (p : PictureUnit) : Bool × PictureUnit :=
  if p.nmi.pending then (true, { p with nmi := { p.nmi with pending := false } }) else (false, p)

/-- The status register. Its five low bits are those of the last byte written to
any register. -/
def status (p : PictureUnit) : UInt8 :=
  (p.lastWrite &&& 0x1F)
    ||| (if p.spriteOverflow then 0x20 else 0)
    ||| (if p.spriteZeroHit then 0x40 else 0)
    ||| (if p.nmi.occurred then 0x80 else 0)

/-! ## The address space of the picture unit -/

@[inline] def fetch (b : Board) (address : UInt16) (p : PictureUnit) : UInt8 :=
  let a := address &&& 0x3FFF
  if a < 0x2000 then b.readPattern a
  else if a < 0x3F00 then p.nametables.read (b.mirroring.cell a)
  else p.palette.read (paletteCell a.toNat)

def store (b : Board) (address : UInt16) (value : UInt8) (p : PictureUnit) :
    PictureUnit × Board :=
  let a := address &&& 0x3FFF
  if a < 0x2000 then (p, b.writePattern a value)
  else if a < 0x3F00 then
    ({ p with nametables := p.nametables.write (b.mirroring.cell a) value }, b)
  else ({ p with palette := p.palette.write (paletteCell a.toNat) value }, b)

def skip (p : PictureUnit) : PictureUnit :=
  { p with scroll := p.scroll.skip (if hasBits p.control 0x04 then 32 else 1) }

/-! ## Registers -/

/-- Read the status. This ends the blanking flag and any pair of writes. -/
def readStatus (p : PictureUnit) : UInt8 × PictureUnit :=
  (p.status,
    { p with nmi := p.nmi.setOccurred false, scroll := { p.scroll with second := false } })

/-- Read a byte of data. It comes through a buffer, except from the palette; then
the buffer gets the byte of the nametable behind the palette. -/
def readData (b : Board) (p : PictureUnit) : UInt8 × PictureUnit :=
  let address := p.scroll.v &&& 0x3FFF
  let value := p.fetch b address
  if address < 0x3F00 then (p.readBuffer, { p with readBuffer := value }.skip)
  else (value, { p with readBuffer := p.fetch b (address - 0x1000) }.skip)

/-- Read one of the eight registers. Most of them can only be written. -/
def readRegister (b : Board) (register : UInt16) (p : PictureUnit) : UInt8 × PictureUnit :=
  match register &&& 0x07 with
  | 2 => p.readStatus
  | 4 => (p.sprites.read p.spriteAddress.toNat, p)
  | 7 => p.readData b
  | _ => (0, p)

def writeControl (value : UInt8) (p : PictureUnit) : PictureUnit :=
  { p with
    control := value
    nmi := p.nmi.setOutput (hasBits value 0x80)
    scroll := p.scroll.selectTable value }

def writeSprite (address : UInt8) (value : UInt8) (p : PictureUnit) : PictureUnit :=
  { p with sprites := p.sprites.write address.toNat value }

def writeRegister (b : Board) (register : UInt16) (value : UInt8) (p : PictureUnit) :
    PictureUnit × Board :=
  let p := { p with lastWrite := value }
  match register &&& 0x07 with
  | 0 => (p.writeControl value, b)
  | 1 => ({ p with mask := value }, b)
  | 3 => ({ p with spriteAddress := value }, b)
  | 4 =>
    let address := p.spriteAddress
    ({ p.writeSprite address value with spriteAddress := address + 1 }, b)
  | 5 => ({ p with scroll := p.scroll.writeScroll value }, b)
  | 6 => ({ p with scroll := p.scroll.writeAddress value }, b)
  | 7 =>
    let (p, b) := p.store b p.scroll.v value
    (p.skip, b)
  | _ => (p, b)

def panel (p : PictureUnit) : Panel :=
  [("scanline", .word p.beam.line), ("dot", .word p.beam.dot), ("frame", .wide p.beam.frame),
   ("ctrl", .byte p.control), ("mask", .byte p.mask), ("status", .byte p.status),
   ("oam_addr", .byte p.spriteAddress), ("v", .word p.scroll.v), ("t", .word p.scroll.t),
   ("fine_x", .byte p.scroll.fineX), ("w", .flag p.scroll.second),
   ("sprite_count", .byte p.selection.count)]

end PictureUnit

/-! ## Saved pictures -/

structure SavedPicture extends PictureState where
  nametables : Array UInt8
  palette : Array UInt8
  sprites : Array UInt8
  screen : Array UInt32

namespace PictureUnit

def save (p : PictureUnit) : SavedPicture :=
  { p.toPictureState with
    nametables := p.nametables.image
    palette := p.palette.image
    sprites := p.sprites.image
    screen := p.screen.image }

/-- The picture unit that continues from a saved one. Registers keep their
widths and the beam stays on the picture; images that are too short are followed
by zeros. -/
def restore (saved : SavedPicture) : PictureUnit :=
  { saved.toPictureState with
    scroll := { saved.scroll with
      v := saved.scroll.v &&& 0x7FFF
      t := saved.scroll.t &&& 0x7FFF
      fineX := saved.scroll.fineX &&& 0x07 }
    beam := { saved.beam with
      line := min saved.beam.line preRenderLine
      dot := min saved.beam.dot lastDot }
    selection := { saved.selection with count := min saved.selection.count 8 }
    nametables := .ofImage 0 saved.nametables
    palette := .ofImage 0 saved.palette
    sprites := .ofImage 0 saved.sprites
    screen := .ofImage 0 saved.screen }

end PictureUnit

end Famicom.Video
