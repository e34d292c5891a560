import Famicom.Memory
import Famicom.Video.Tile

/-!
# Sprites

There are 64 sprites, four bytes each: the line above the sprite, the tile, the
attributes and the column. On every line the first eight sprites that reach the
next line are selected, and their rows are fetched.
-/

namespace Famicom.Video

abbrev SpriteMemory := Memory UInt8 256

structure Sprite where
  y : UInt8
  tile : UInt8
  attributes : UInt8
  x : UInt8
deriving DecidableEq, Repr

def SpriteMemory.sprite (m : SpriteMemory) (i : Nat) : Sprite :=
  { y := m.read (i * 4), tile := m.read (i * 4 + 1), attributes := m.read (i * 4 + 2)
    x := m.read (i * 4 + 3) }

namespace Sprite

/-- The row of the sprite on the line below `line`. It is no row of the sprite
unless it is less than the height. -/
@[inline] def row (line : UInt16) (s : Sprite) : UInt16 := line - s.y.toUInt16

/-- The address of the low bits of a row. Small sprites take their patterns from
`table`; tall ones, two tiles high, from the table that the lowest bit of the
tile selects. -/
def patternAddress (tall : Bool) (table row : UInt16) (s : Sprite) : UInt16 :=
  let upsideDown := hasBits s.attributes 0x80
  if tall then
    let row := if upsideDown then 15 - row else row
    let table := (s.tile &&& 1).toUInt16 * 0x1000
    let tile := (s.tile &&& 0xFE).toUInt16
    if row > 7 then table + (tile + 1) * 16 + (row - 8) else table + tile * 16 + row
  else
    let row := if upsideDown then 7 - row else row
    table + s.tile.toUInt16 * 16 + row

def packed (low high : UInt8) (s : Sprite) : UInt32 :=
  let palette := (s.attributes &&& 0x03) <<< 2
  if hasBits s.attributes 0x40 then packRow palette (reverseBits low) (reverseBits high)
  else packRow palette low high

end Sprite

/-- A sprite that was selected for a line. -/
structure Slot where
  pattern : UInt32
  x : UInt8
  /-- Whether the background hides it. -/
  behind : Bool
  index : UInt8
deriving DecidableEq, Repr

structure Selection where
  count : UInt8
  /-- The slots in the order of the sprites; those from `count` on are stale. -/
  slots : Memory Slot 8
deriving DecidableEq

namespace Selection

def empty : Selection :=
  { count := 0, slots := .filled { pattern := 0, x := 0, behind := false, index := 0 } }

/-- The first solid pixel of the slots from `i` on, in a column. -/
def solidFrom (s : Selection) (x : UInt32) : (remaining i : Nat) → Option (Slot × UInt8)
  | 0, _ => none
  | remaining + 1, i =>
    let slot := s.slots.read i
    let offset := x - slot.x.toUInt32
    let pixel := (slot.pattern >>> ((7 - offset) * 4)).toUInt8 &&& 0x0F
    if offset > 7 || pixel &&& 0x03 == 0 then s.solidFrom x remaining (i + 1)
    else some (slot, pixel)

@[inline] def pixel? (s : Selection) (x : UInt32) : Option (Slot × UInt8) :=
  if s.count == 0 then none else s.solidFrom x s.count.toNat 0

end Selection

end Famicom.Video
