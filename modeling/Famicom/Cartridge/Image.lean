import Famicom.Cartridge.Contents
import Famicom.Word

/-!
# Cartridge images

An image is a header of 16 bytes, 512 further bytes if the header says so, the
program and the patterns. The header begins with `NES` and the byte $1A; then
follow the numbers of program and pattern units and two bytes of flags. What
comes after the patterns is ignored.
-/

namespace Famicom.Cartridge

namespace Image

def headerSize : Nat := 16
/-- Bytes of the block that may stand in front of the program. -/
def trainerSize : Nat := 512
def magic : Array UInt8 := #[0x4E, 0x45, 0x53, 0x1A]

structure Header where
  programUnits : Nat
  patternUnits : Nat
  number : UInt8
  mirroring : Mirroring
  battery : Bool
  trainer : Bool
deriving DecidableEq, Repr

namespace Header

/-- Read a header from the four bytes behind the magic. -/
def ofBytes (programUnits patternUnits flags6 flags7 : UInt8) : Header :=
  { programUnits := programUnits.toNat
    patternUnits := patternUnits.toNat
    number := (flags7 &&& (0xF0 : UInt8)) ||| (flags6 >>> 4)
    mirroring :=
      if hasBits flags6 0x08 then .fourScreen
      else if hasBits flags6 0x01 then .vertical
      else .horizontal
    battery := hasBits flags6 0x02
    trainer := hasBits flags6 0x04 }

def programStart (h : Header) : Nat := if h.trainer then headerSize + trainerSize else headerSize

def patternStart (h : Header) : Nat := h.programStart + h.programUnits * programUnit

def imageEnd (h : Header) : Nat := h.patternStart + h.patternUnits * patternUnit

end Header

def header? (data : Array UInt8) : Except CartridgeError Header :=
  if data.size < headerSize then throw (.truncated headerSize data.size)
  else if data.extract 0 4 ≠ magic then throw .badMagic
  else return .ofBytes (data.getD 4 0) (data.getD 5 0) (data.getD 6 0) (data.getD 7 0)

end Image

/-- Build the cartridge that an image describes. -/
def ofImage (data : Array UInt8) : Except CartridgeError Cartridge := do
  let h ← Image.header? data
  if data.size < h.imageEnd then throw (.truncated h.imageEnd data.size)
  build (data.extract h.programStart h.patternStart)
    (data.extract h.patternStart h.imageEnd) h.number h.mirroring h.battery

end Famicom.Cartridge
