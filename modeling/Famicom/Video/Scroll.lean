import Famicom.Word

/-!
# Scrolling

The address register `v` is at once the address of data accesses and the
position of the background: five bits of tile column, five of tile row, two of
nametable and three of the row within the tile. The register `t` holds where the
next line or frame begins. Both have fifteen bits.
-/

namespace Famicom.Video

structure Scroll where
  v : UInt16
  t : UInt16
  /-- The column within a tile. -/
  fineX : UInt8
  second : Bool
deriving DecidableEq, Repr

namespace Scroll

@[inline] def columnBits : UInt16 := 0x001F
@[inline] def rowBits : UInt16 := 0x03E0
@[inline] def rightTable : UInt16 := 0x0400
@[inline] def lowerTable : UInt16 := 0x0800
/-- The row within the tile. -/
@[inline] def fineBits : UInt16 := 0x7000
@[inline] def horizontalBits : UInt16 := 0x041F
@[inline] def verticalBits : UInt16 := 0x7BE0

/-- A word with the bits of a mask taken from another word. -/
@[inline] def merge (mask source w : UInt16) : UInt16 := (w &&& ~~~mask) ||| (source &&& mask)

/-- One tile to the right, into the neighbouring nametable behind the last
column. -/
@[inline] def nextColumn (v : UInt16) : UInt16 :=
  if v &&& columnBits == 31 then (v &&& ~~~columnBits) ^^^ rightTable else v + 1

@[inline] def atRow (row v : UInt16) : UInt16 := merge rowBits (row <<< 5) (v &&& ~~~fineBits)

/-- One row down. Behind the last row of a nametable comes the first of the one
below; the rows of attributes behind it wrap around without a change of table. -/
@[inline] def nextRow (v : UInt16) : UInt16 :=
  if v &&& fineBits != fineBits then v + 0x1000
  else
    let row := (v &&& rowBits) >>> 5
    if row == 29 then atRow 0 v ^^^ lowerTable
    else if row == 31 then atRow 0 v
    else atRow (row + 1) v

/-- Start a line: column and horizontal nametable come from `t`. -/
@[inline] def copyHorizontal (v t : UInt16) : UInt16 := merge horizontalBits t v

/-- Start a frame: row and vertical nametable come from `t`. -/
@[inline] def copyVertical (v t : UInt16) : UInt16 := merge verticalBits t v

/-- A write to the scroll register: first the column, then the row. -/
def writeScroll (value : UInt8) (s : Scroll) : Scroll :=
  let w := value.toUInt16
  if s.second then
    { s with t := merge fineBits (w <<< 12) (merge rowBits (w <<< 2) s.t), second := false }
  else
    { s with t := merge columnBits (w >>> 3) s.t, fineX := value &&& 0x07, second := true }

/-- A write to the address register: first the high byte, of which six bits
count, then the low one. -/
def writeAddress (value : UInt8) (s : Scroll) : Scroll :=
  let w := value.toUInt16
  if s.second then
    let t := merge 0x00FF w s.t
    { s with t, v := t, second := false }
  else { s with t := merge 0x7F00 ((w &&& 0x3F) <<< 8) s.t, second := true }

def selectTable (control : UInt8) (s : Scroll) : Scroll :=
  { s with t := merge (rightTable ||| lowerTable) (control.toUInt16 <<< 10) s.t }

def skip (step : UInt16) (s : Scroll) : Scroll := { s with v := (s.v + step) &&& 0x7FFF }

end Scroll

end Famicom.Video
