import Famicom.Word

/-!
# Tiles

A row of a tile is eight pixels. Its pattern comes as two bytes, one for each of
the two low bits of the pixels; the two high bits choose a palette and are the
same for all eight. Rows are kept packed, four bits for a pixel and the leftmost
pixel on top.
-/

namespace Famicom.Video

/-- Append `n` pixels, the leftmost of the two planes first, to packed ones. -/
def packOnto : (n : Nat) → (palette low high : UInt8) → (row : UInt32) → UInt32
  | 0, _, _, _, row => row
  | n + 1, palette, low, high, row =>
    let pixel := palette ||| ((low &&& 0x80) >>> 7) ||| ((high &&& 0x80) >>> 6)
    packOnto n palette (low <<< 1) (high <<< 1) ((row <<< 4) ||| pixel.toUInt32)

@[inline] def packRow (palette low high : UInt8) : UInt32 := packOnto 8 palette low high 0

def reverseBits (b : UInt8) : UInt8 :=
  let b := ((b &&& 0xF0) >>> 4) ||| ((b &&& 0x0F) <<< 4)
  let b := ((b &&& 0xCC) >>> 2) ||| ((b &&& 0x33) <<< 2)
  ((b &&& 0xAA) >>> 1) ||| ((b &&& 0x55) <<< 1)

structure TileFetch where
  name : UInt8
  /-- Its palette, in the place it has in a pixel. -/
  palette : UInt8
  low : UInt8
  high : UInt8
  /-- Sixteen packed pixels: the row on the screen and the one behind it. -/
  pixels : UInt64
deriving DecidableEq, Repr

namespace TileFetch

def blank : TileFetch := { name := 0, palette := 0, low := 0, high := 0, pixels := 0 }

@[inline] def shift (t : TileFetch) : TileFetch := { t with pixels := t.pixels <<< 4 }

@[inline] def store (t : TileFetch) : TileFetch :=
  { t with pixels := t.pixels ||| (packRow t.palette t.low t.high).toUInt64 }

/-- The pixel on the screen, `fineX` columns into the row. -/
@[inline] def pixel (fineX : UInt8) (t : TileFetch) : UInt8 :=
  ((t.pixels >>> 32).toUInt32 >>> ((7 - fineX.toUInt32) * 4)).toUInt8 &&& 0x0F

@[inline] def nameAddress (v : UInt16) : UInt16 := 0x2000 ||| (v &&& 0x0FFF)

/-- The address of the palette of a group of four by four tiles. -/
@[inline] def attributeAddress (v : UInt16) : UInt16 :=
  let column := (v >>> 2) &&& (0x07 : UInt16)
  let row := (v >>> 4) &&& (0x38 : UInt16)
  0x23C0 ||| (v &&& 0x0C00) ||| row ||| column

/-- The palette of the quarter of the group that the position lies in. -/
@[inline] def quarter (v : UInt16) (attributes : UInt8) : UInt8 :=
  let shift := ((v >>> 4) &&& (0x04 : UInt16)) ||| (v &&& (0x02 : UInt16))
  ((attributes >>> shift.toUInt8) &&& 0x03) <<< 2

@[inline] def patternAddress (table v : UInt16) (t : TileFetch) : UInt16 :=
  let row := (v >>> 12) &&& (0x07 : UInt16)
  table + t.name.toUInt16 * 16 + row

end TileFetch

end Famicom.Video
