import Famicom.Video.PictureUnit

/-!
# Rendering

One tick of the picture unit is one dot. On the way along a line the background
is fetched tile by tile, two tiles ahead of the screen; behind the visible part
of the line the sprites of the next one are selected.
-/

namespace Famicom.Video

open Cartridge

namespace PictureUnit

/-! ## Pixels -/

/-- The background pixel of this dot, or nothing in the left columns if it is
hidden there. -/
@[inline] def backgroundPixel (left : Bool) (p : PictureUnit) : UInt8 :=
  if !hasBits p.mask maskBackground || (left && !hasBits p.mask maskBackgroundLeft) then 0
  else p.tile.pixel p.scroll.fineX

@[inline] def spritePixel? (left : Bool) (x : UInt32) (p : PictureUnit) : Option (Slot × UInt8) :=
  if !hasBits p.mask maskSprites || (left && !hasBits p.mask maskSpritesLeft) then none
  else p.selection.pixel? x

@[inline] def plot (colour : UInt8) (p : PictureUnit) : PictureUnit :=
  let cell := p.beam.line.toNat * screenWidth + (p.beam.dot.toNat - 1)
  { p with screen := p.screen.write cell (shade p.mask colour) }

@[inline] def colour (entry : UInt8) (p : PictureUnit) : UInt8 :=
  p.palette.read (paletteCell entry.toNat)

/-- Draw a pixel. A sprite covers a background that shows through, or one that
it is not behind; the first sprite on a solid background is recorded except in
the last column. -/
@[inline] def drawPixel (p : PictureUnit) : PictureUnit :=
  let x := p.beam.dot.toUInt32 - 1
  let left := x < 8
  let background := p.backgroundPixel left
  let solid := background &&& 0x03 != 0
  match p.spritePixel? left x with
  | none => p.plot (p.colour (if solid then background else 0))
  | some (slot, sprite) =>
    if !solid then p.plot (p.colour (sprite ||| 0x10))
    else
      let entry := if slot.behind then background else sprite ||| 0x10
      let hit := slot.index == 0 && x < 255
      { p with spriteZeroHit := p.spriteZeroHit || hit }.plot (p.colour entry)

@[inline] def drawBackdrop (p : PictureUnit) : PictureUnit :=
  if p.beam.onVisibleLine && p.beam.onVisibleDot then p.plot (p.palette.read 0) else p

/-! ## Background -/

@[inline] def backgroundTable (p : PictureUnit) : UInt16 :=
  if hasBits p.control 0x10 then 0x1000 else 0

/-- The part of a tile that is fetched at this dot: number, palette and the two
bytes of its row. At the end the row is ready and the position moves on. -/
@[inline] def fetchTile (b : Board) (p : PictureUnit) : PictureUnit :=
  let v := p.scroll.v
  let tile := p.tile.shift
  match p.beam.dot % 8 with
  | 1 => { p with tile := { tile with name := p.fetch b (TileFetch.nameAddress v) } }
  | 3 =>
    let attributes := p.fetch b (TileFetch.attributeAddress v)
    { p with tile := { tile with palette := TileFetch.quarter v attributes } }
  | 5 =>
    { p with tile := { tile with low := p.fetch b (tile.patternAddress p.backgroundTable v) } }
  | 7 =>
    { p with
      tile := { tile with high := p.fetch b (tile.patternAddress p.backgroundTable v + 8) } }
  | 0 => { p with tile := tile.store, scroll := { p.scroll with v := Scroll.nextColumn v } }
  | _ => { p with tile }

/-- What happens to the position at certain dots: it goes down a row at the end
of the visible part of a line, then back to the start of the line, and to the
top of the picture on the line before it. -/
@[inline] def moveScroll (p : PictureUnit) : PictureUnit :=
  let dot := p.beam.dot
  if dot == 256 then { p with scroll := { p.scroll with v := Scroll.nextRow p.scroll.v } }
  else if dot == 257 then
    { p with scroll := { p.scroll with v := Scroll.copyHorizontal p.scroll.v p.scroll.t } }
  else if p.beam.line == preRenderLine && 280 ≤ dot && dot ≤ 304 then
    { p with scroll := { p.scroll with v := Scroll.copyVertical p.scroll.v p.scroll.t } }
  else p

/-! ## Sprites -/

@[inline] def tallSprites (p : PictureUnit) : Bool := hasBits p.control 0x20

def spriteHeight (p : PictureUnit) : UInt16 := if p.tallSprites then 16 else 8

def spriteTable (p : PictureUnit) : UInt16 := if hasBits p.control 0x08 then 0x1000 else 0

/-- The numbers of the sprites that reach the line below this one. -/
def reachingSprites (p : PictureUnit) : List Nat :=
  (List.range 64).filter fun i => (p.sprites.sprite i).row p.beam.line < p.spriteHeight

def fetchSprite (b : Board) (p : PictureUnit) (i : Nat) : Slot :=
  let s := p.sprites.sprite i
  let address := s.patternAddress p.tallSprites p.spriteTable (s.row p.beam.line)
  { pattern := s.packed (p.fetch b address) (p.fetch b (address + 8))
    x := s.x
    behind := hasBits s.attributes 0x20
    index := i.toUInt8 }

/-- Select the sprites of the next line. There is room for eight; more than that
set the overflow flag. -/
def selectSprites (b : Board) (p : PictureUnit) : PictureUnit :=
  let reaching := p.reachingSprites
  let fetched := (reaching.take 8).map (p.fetchSprite b)
  { p with
    selection :=
      { count := fetched.length.toUInt8, slots := p.selection.slots.writeAll 0 fetched }
    spriteOverflow := p.spriteOverflow || reaching.length > 8 }

/-- Sprites are selected behind the visible part of every visible line. No
sprite is left from any other line. -/
@[inline] def updateSelection (b : Board) (p : PictureUnit) : PictureUnit :=
  if p.beam.dot == 257 then
    if p.beam.onVisibleLine then p.selectSprites b
    else { p with selection := { p.selection with count := 0 } }
  else p

/-! ## Dots -/

@[inline] def render (b : Board) (p : PictureUnit) : PictureUnit :=
  if p.beam.onVisibleLine || p.beam.line == preRenderLine then
    let p := if p.beam.onVisibleLine && p.beam.onVisibleDot then p.drawPixel else p
    let p := if p.beam.onFetchDot then p.fetchTile b else p
    p.moveScroll.updateSelection b
  else p.updateSelection b

/-- The blanking flag is set at the start of vertical blanking and cleared,
together with the sprite flags, at the start of the line before the picture. -/
@[inline] def updateFlags (p : PictureUnit) : PictureUnit :=
  if p.beam.dot == 1 then
    if p.beam.line == blankingLine then { p with nmi := p.nmi.setOccurred true }
    else if p.beam.line == preRenderLine then
      { p with nmi := p.nmi.setOccurred false, spriteZeroHit := false, spriteOverflow := false }
    else p
  else p

@[inline] def advance (p : PictureUnit) : PictureUnit :=
  { p with beam := p.beam.advance p.rendering, nmi := p.nmi.advance }

def tick (b : Board) (p : PictureUnit) : PictureUnit :=
  let p := p.advance
  let p := if p.rendering then p.render b else p.drawBackdrop
  p.updateFlags

end PictureUnit

end Famicom.Video
