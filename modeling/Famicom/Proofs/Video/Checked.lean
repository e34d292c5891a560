import Famicom.Proofs.Cartridge.Checked
import Famicom.Proofs.Video.InRange

/-!
# The checked picture unit

A dot and the accesses of the processor with every index and every sum checked:
nametables, palette, sprite memory, the slots of selected sprites, the table of
lights and the screen. The widths of the scroll registers, the place of the beam
and the number of selected sprites are enough for all checks
(`PictureUnit.checkedTick_agrees`). Only the count of frames comes to an end.
-/

namespace Famicom.Video

open Cartridge Checked

/-! ## Position -/

namespace Beam

def checkedNextFrame (b : Beam) : Checked Beam := do
  let frame ← count b.frame 1
  return { line := 0, dot := 0, frame, odd := !b.odd }

def checkedAdvance (rendering : Bool) (b : Beam) : Checked Beam :=
  if rendering && b.odd && b.line == preRenderLine && b.dot == 339 then b.checkedNextFrame
  else do
    let dot ← plus b.dot 1
    if dot > lastDot then do
      let line ← plus b.line 1
      if line > preRenderLine then b.checkedNextFrame else return { b with dot := 0, line }
    else return { b with dot }

/-- The count of frames is at its greatest value. -/
def InLastFrame (b : Beam) : Prop := b.frame.toNat + 1 = 2 ^ 64

theorem checkedNextFrame_agrees (b : Beam) :
    Agrees b.checkedNextFrame b.nextFrame b.InLastFrame := by
  have hlt : b.frame.toNat < 2 ^ 64 := b.frame.toNat_lt
  have hcount : Agrees (count b.frame 1) (b.frame + 1) b.InLastFrame := by
    refine (count_agrees b.frame 1).mono fun hends => ?_
    have hle : 2 ^ 64 ≤ b.frame.toNat + 1 := hends
    show b.frame.toNat + 1 = 2 ^ 64
    omega
  exact hcount.bind (.of_eq rfl)

theorem checkedAdvance_agrees {b : Beam} (h : b.OnPicture) (rendering : Bool) :
    Agrees (b.checkedAdvance rendering) (b.advance rendering) b.InLastFrame := by
  have hline : b.line.toNat ≤ 261 := UInt16.le_iff_toNat_le.1 h.1
  have hdot : b.dot.toNat ≤ 340 := UInt16.le_iff_toNat_le.1 h.2
  have hnextDot : (b.dot + 1).toNat = b.dot.toNat + 1 := Word.toNat_succ (by omega)
  have hnextLine : (b.line + 1).toNat = b.line.toNat + 1 := Word.toNat_succ (by omega)
  have hinside : b.dot < lastDot ↔ ¬ b.dot + 1 > lastDot := by
    simp only [lastDot, GT.gt, UInt16.lt_iff_toNat_lt, hnextDot, UInt16.reduceToNat]
    omega
  have habove : b.line < preRenderLine ↔ ¬ b.line + 1 > preRenderLine := by
    simp only [preRenderLine, GT.gt, UInt16.lt_iff_toNat_lt, hnextLine, UInt16.reduceToNat]
    omega
  have hplusDot : plus b.dot 1 = .ok (b.dot + 1) :=
    plus_word (by simp only [UInt16.reduceToNat]; omega)
  have hplusLine : plus b.line 1 = .ok (b.line + 1) :=
    plus_word (by simp only [UInt16.reduceToNat]; omega)
  -- the plain beam compares before it moves on, the checked one behind
  unfold checkedAdvance advance
  by_cases hshort : (rendering && b.odd && b.line == preRenderLine && b.dot == 339) = true
  · rw [if_pos hshort, if_pos hshort]
    exact b.checkedNextFrame_agrees
  rw [if_neg hshort, if_neg hshort, hplusDot, ok_bind]
  by_cases hend : b.dot + 1 > lastDot
  · rw [if_pos hend, if_neg (fun hlt => hinside.1 hlt hend), hplusLine, ok_bind]
    by_cases hlast : b.line + 1 > preRenderLine
    · rw [if_pos hlast, if_neg (fun hlt => habove.1 hlt hlast)]
      exact b.checkedNextFrame_agrees
    · rw [if_neg hlast, if_pos (habove.2 hlast)]
      exact .of_eq rfl
  · rw [if_neg hend, if_pos (hinside.2 hend)]
    exact .of_eq rfl

end Beam

namespace NmiLine

def checkedAdvance (n : NmiLine) : Checked NmiLine :=
  if n.delay == 0 then return n
  else do
    let delay ← minus n.delay 1
    return { n with delay, pending := n.pending || (delay == 0 && n.level) }

theorem checkedAdvance_eq (n : NmiLine) : n.checkedAdvance = .ok n.advance := by
  unfold checkedAdvance advance
  by_cases hidle : (n.delay == 0) = true
  · rw [if_pos hidle, if_pos hidle]
    rfl
  · rw [if_neg hidle, if_neg hidle, minus_byte (Byte.one_le (by simpa using hidle))]
    rfl

end NmiLine

namespace Scroll

def checkedNextColumn (v : UInt16) : Checked UInt16 :=
  if v &&& columnBits == 31 then return (v &&& ~~~columnBits) ^^^ rightTable else plus v 1

def checkedNextRow (v : UInt16) : Checked UInt16 :=
  if v &&& fineBits != fineBits then plus v 0x1000
  else
    let row := (v &&& rowBits) >>> 5
    if row == 29 then return atRow 0 v ^^^ lowerTable
    else if row == 31 then return atRow 0 v
    else return atRow (← plus row 1) v

theorem checkedNextColumn_eq {v : UInt16} (hv : v < 0x8000) :
    checkedNextColumn v = .ok (nextColumn v) := by
  have hlt : v.toNat < 0x8000 := UInt16.lt_iff_toNat_lt.1 hv
  unfold checkedNextColumn nextColumn
  by_cases hlast : (v &&& columnBits == 31) = true
  · rw [if_pos hlast, if_pos hlast]
    rfl
  · rw [if_neg hlast, if_neg hlast]
    exact plus_word (by simp only [UInt16.reduceToNat]; omega)

theorem checkedNextRow_eq {v : UInt16} (hv : v < 0x8000) : checkedNextRow v = .ok (nextRow v) := by
  have hlt : v.toNat < 0x8000 := UInt16.lt_iff_toNat_lt.1 hv
  -- far more than the five bits of a row, but enough for the sum
  have hrow : ((v &&& rowBits) >>> 5).toNat < 0x1000 := by
    have := ((v &&& rowBits)).toNat_lt
    rw [UInt16.toNat_shiftRight]
    simp only [UInt16.reduceToNat, Nat.reduceMod, Nat.shiftRight_eq_div_pow]
    omega
  have hplus : plus ((v &&& rowBits) >>> 5) 1 = .ok ((v &&& rowBits) >>> 5 + 1) :=
    plus_word (by simp only [UInt16.reduceToNat]; omega)
  unfold checkedNextRow nextRow
  simp only [hplus, ok_bind]
  split
  · exact plus_word (by simp only [UInt16.reduceToNat]; omega)
  split
  · rfl
  split <;> rfl

end Scroll

/-! ## Pixels -/

namespace TileFetch

def checkedPixel (fineX : UInt8) (t : TileFetch) : Checked UInt8 := do
  let columns ← minus 7 fineX.toUInt32
  return ((t.pixels >>> 32).toUInt32 >>> (columns * 4)).toUInt8 &&& 0x0F

def checkedPatternAddress (table v : UInt16) (t : TileFetch) : Checked UInt16 := do
  let tile ← plus table (t.name.toUInt16 * 16)
  plus tile ((v >>> 12) &&& 0x07)

theorem checkedPixel_eq {fineX : UInt8} (hfine : fineX < 8) (t : TileFetch) :
    t.checkedPixel fineX = .ok (t.pixel fineX) := by
  have hlt : fineX.toNat < 8 := UInt8.lt_iff_toNat_lt.1 hfine
  have hle : fineX.toUInt32 ≤ 7 := by
    rw [UInt32.le_iff_toNat_le, UInt8.toNat_toUInt32]
    simp only [UInt32.reduceToNat]
    omega
  rw [checkedPixel, minus_long hle]
  rfl

/-- The rows of a pattern table lie in its 4 KiB. -/
theorem checkedPatternAddress_eq {table : UInt16} (htable : table ≤ 0x1000) (v : UInt16)
    (t : TileFetch) :
    t.checkedPatternAddress table v = .ok (t.patternAddress table v) ∧
      (t.patternAddress table v).toNat < 0x2000 := by
  have hle : table.toNat ≤ 0x1000 := UInt16.le_iff_toNat_le.1 htable
  have hname := t.name.toNat_lt
  have hrow : ((v >>> 12) &&& 0x07).toNat < 8 := by
    rw [Word.toNat_and_low _ 3 rfl]
    exact Nat.mod_lt _ (by decide)
  have hscaled : (t.name.toUInt16 * 16).toNat = t.name.toNat * 16 := by
    rw [UInt16.toNat_mul, UInt8.toNat_toUInt16]
    simp only [UInt16.reduceToNat]
    omega
  have htile : (table + t.name.toUInt16 * 16).toNat = table.toNat + t.name.toNat * 16 := by
    rw [UInt16.toNat_add, hscaled]
    omega
  constructor
  · rw [checkedPatternAddress, plus_word (by omega), ok_bind, plus_word (by omega)]
    rfl
  · rw [patternAddress, UInt16.toNat_add, htile]
    omega

end TileFetch

def checkedPaletteCell (address : UInt16) : Checked Nat :=
  let cell := address &&& 0x1F
  if cell ≥ 16 ∧ cell % 4 = 0 then do
    let cell ← minus cell 16
    return cell.toNat
  else return cell.toNat

theorem checkedPaletteCell_eq (address : UInt16) :
    checkedPaletteCell address = .ok (paletteCell address.toNat) := by
  have hcell : (address &&& 0x1F).toNat = address.toNat % 32 := Word.toNat_and_low address 5 rfl
  have hbackdrop : ((address &&& 0x1F) ≥ 16 ∧ (address &&& 0x1F) % 4 = 0) ↔
      address.toNat % 32 ≥ 16 ∧ address.toNat % 32 % 4 = 0 := by
    rw [ge_iff_le, UInt16.le_iff_toNat_le, ← UInt16.toNat_inj, UInt16.toNat_mod, hcell]
    exact Iff.rfl
  unfold checkedPaletteCell paletteCell
  simp only [hbackdrop]
  by_cases hcase : address.toNat % 32 ≥ 16 ∧ address.toNat % 32 % 4 = 0
  · have hle := (hbackdrop.2 hcase).1
    rw [if_pos hcase, if_pos hcase, minus_word hle, ok_bind, pure_eq,
      UInt16.toNat_sub_of_le _ _ hle, hcell]
    rfl
  · rw [if_neg hcase, if_neg hcase, pure_eq, hcell]

def checkedShade (mask colour : UInt8) : Checked UInt32 := do
  let visible := colour &&& 0x3F
  let entry := if hasBits mask maskGrey then visible &&& 0x30 else visible
  let _ ← lookup lights entry.toNat
  return shade mask colour

theorem checkedShade_eq (mask colour : UInt8) :
    checkedShade mask colour = .ok (shade mask colour) := by
  have hvisible : (colour &&& 0x3F).toNat < 64 := by
    rw [Byte.toNat_and_low _ 6 rfl]
    exact Nat.mod_lt _ (by decide)
  have hentry : (if hasBits mask maskGrey then colour &&& 0x3F &&& 0x30
      else colour &&& 0x3F).toNat < 64 := by
    split
    · rw [UInt8.toNat_and]
      exact Nat.lt_of_le_of_lt Nat.and_le_left hvisible
    · exact hvisible
  simp only [checkedShade, lookup_ok _ hentry, ok_bind, pure_eq]

/-! ## Registers -/

namespace PictureUnit

def checkedFetch (b : Board) (address : UInt16) (p : PictureUnit) : Checked UInt8 :=
  let a := address &&& 0x3FFF
  if a < 0x2000 then b.checkedReadPattern a
  else if a < 0x3F00 then do
    let cell ← b.mirroring.checkedCell a
    p.nametables.readAt cell
  else do
    let cell ← checkedPaletteCell a
    p.palette.readAt cell

def checkedStore (b : Board) (address : UInt16) (value : UInt8) (p : PictureUnit) :
    Checked (PictureUnit × Board) :=
  let a := address &&& 0x3FFF
  if a < 0x2000 then return (p, ← b.checkedWritePattern a value)
  else if a < 0x3F00 then do
    let cell ← b.mirroring.checkedCell a
    let nametables ← p.nametables.writeAt cell value
    return ({ p with nametables }, b)
  else do
    let cell ← checkedPaletteCell a
    let palette ← p.palette.writeAt cell value
    return ({ p with palette }, b)

def checkedReadData (b : Board) (p : PictureUnit) : Checked (UInt8 × PictureUnit) := do
  let address := p.scroll.v &&& 0x3FFF
  let value ← p.checkedFetch b address
  if address < 0x3F00 then return (p.readBuffer, { p with readBuffer := value }.skip)
  else
    let below ← minus address 0x1000
    let readBuffer ← p.checkedFetch b below
    return (value, { p with readBuffer }.skip)

def checkedReadRegister (b : Board) (register : UInt16) (p : PictureUnit) :
    Checked (UInt8 × PictureUnit) :=
  match register &&& 0x07 with
  | 4 => return (← p.sprites.readAt p.spriteAddress.toNat, p)
  | 7 => p.checkedReadData b
  | _ => return p.readRegister b register

def checkedWriteSprite (address value : UInt8) (p : PictureUnit) : Checked PictureUnit := do
  let sprites ← p.sprites.writeAt address.toNat value
  return { p with sprites }

/-- Write one of the eight registers. Only the data registers reach memory. -/
def checkedWriteRegister (b : Board) (register : UInt16) (value : UInt8) (p : PictureUnit) :
    Checked (PictureUnit × Board) :=
  match register &&& 0x07 with
  | 4 => do
    let q ← { p with lastWrite := value }.checkedWriteSprite p.spriteAddress value
    return ({ q with spriteAddress := p.spriteAddress + 1 }, b)
  | 7 => do
    let (q, b) ← { p with lastWrite := value }.checkedStore b p.scroll.v value
    return (q.skip, b)
  | _ => return p.writeRegister b register value

variable {p : PictureUnit} {b : Board}

theorem checkedFetch_eq (hb : b.InRange) (address : UInt16) (p : PictureUnit) :
    p.checkedFetch b address = .ok (p.fetch b address) := by
  unfold checkedFetch fetch
  simp only []
  by_cases hpattern : address &&& 0x3FFF < 0x2000
  · rw [if_pos hpattern, if_pos hpattern, Board.checkedReadPattern_eq hb]
  rw [if_neg hpattern, if_neg hpattern]
  by_cases htable : address &&& 0x3FFF < 0x3F00
  · rw [if_pos htable, if_pos htable, Mirroring.checkedCell_eq _ (UInt16.not_lt.1 hpattern),
      ok_bind, Memory.readAt_ok _ (Mirroring.cell_lt _ _)]
  · rw [if_neg htable, if_neg htable, checkedPaletteCell_eq, ok_bind,
      Memory.readAt_ok _ (paletteCell_lt _)]

theorem checkedStore_eq (hb : b.InRange) (address : UInt16) (value : UInt8) (p : PictureUnit) :
    p.checkedStore b address value = .ok (p.store b address value) := by
  unfold checkedStore store
  simp only []
  by_cases hpattern : address &&& 0x3FFF < 0x2000
  · rw [if_pos hpattern, if_pos hpattern, Board.checkedWritePattern_eq hb]
    rfl
  rw [if_neg hpattern, if_neg hpattern]
  by_cases htable : address &&& 0x3FFF < 0x3F00
  · rw [if_pos htable, if_pos htable, Mirroring.checkedCell_eq _ (UInt16.not_lt.1 hpattern),
      ok_bind, Memory.writeAt_ok _ (Mirroring.cell_lt _ _)]
    rfl
  · rw [if_neg htable, if_neg htable, checkedPaletteCell_eq, ok_bind,
      Memory.writeAt_ok _ (paletteCell_lt _)]
    rfl

theorem checkedReadData_eq (hb : b.InRange) (p : PictureUnit) :
    p.checkedReadData b = .ok (p.readData b) := by
  unfold checkedReadData readData
  simp only [checkedFetch_eq hb, ok_bind]
  by_cases hbuffered : p.scroll.v &&& 0x3FFF < 0x3F00
  · rw [if_pos hbuffered, if_pos hbuffered]
    rfl
  · have hle : 0x1000 ≤ p.scroll.v &&& 0x3FFF :=
      UInt16.le_trans (by decide) (UInt16.not_lt.1 hbuffered)
    rw [if_neg hbuffered, if_neg hbuffered, minus_word hle]
    rfl

theorem checkedReadRegister_eq (hb : b.InRange) (register : UInt16) (p : PictureUnit) :
    p.checkedReadRegister b register = .ok (p.readRegister b register) := by
  unfold checkedReadRegister
  split
  · rename_i hregister
    have hlt : p.spriteAddress.toNat < 256 := p.spriteAddress.toNat_lt
    rw [Memory.readAt_ok _ hlt]
    simp only [ok_bind, pure_eq, readRegister, hregister]
  · rename_i hregister
    rw [checkedReadData_eq hb]
    simp only [readRegister, hregister]
  · rfl

theorem checkedWriteSprite_eq (address value : UInt8) (p : PictureUnit) :
    p.checkedWriteSprite address value = .ok (p.writeSprite address value) := by
  have hlt : address.toNat < 256 := address.toNat_lt
  rw [checkedWriteSprite, Memory.writeAt_ok _ hlt]
  rfl

theorem checkedWriteRegister_eq (hb : b.InRange) (register : UInt16) (value : UInt8)
    (p : PictureUnit) :
    p.checkedWriteRegister b register value = .ok (p.writeRegister b register value) := by
  unfold checkedWriteRegister
  split
  · rename_i hregister
    rw [checkedWriteSprite_eq]
    simp only [ok_bind, pure_eq, writeRegister, hregister]
  · rename_i hregister
    rw [checkedStore_eq hb]
    simp only [ok_bind, pure_eq, writeRegister, hregister]
  · rfl

end PictureUnit

/-! ## Drawing -/

namespace Selection

def checkedSolidFrom (s : Selection) (x : UInt32) :
    (remaining i : Nat) → Checked (Option (Slot × UInt8))
  | 0, _ => return none
  | remaining + 1, i => do
    let slot ← s.slots.readAt i
    let _ ← signed 32 ((x.toNat : Int) - slot.x.toNat)
    let offset := x - slot.x.toUInt32
    if offset > 7 then s.checkedSolidFrom x remaining (i + 1)
    else do
      let columns ← minus 7 offset
      let pixel := (slot.pattern >>> (columns * 4)).toUInt8 &&& 0x0F
      if pixel &&& 0x03 == 0 then s.checkedSolidFrom x remaining (i + 1)
      else return some (slot, pixel)

def checkedPixel? (s : Selection) (x : UInt32) : Checked (Option (Slot × UInt8)) :=
  s.checkedSolidFrom x s.count.toNat 0

theorem checkedSolidFrom_eq (s : Selection) {x : UInt32} (hx : x.toNat < 256) (remaining i : Nat)
    (h : i + remaining ≤ 8) :
    s.checkedSolidFrom x remaining i = .ok (s.solidFrom x remaining i) := by
  -- the slots that are left end within the eight
  induction remaining generalizing i with
  | zero => rfl
  | succ remaining ih =>
      have hrest := ih (i + 1) (by omega)
      have hcolumn := (s.slots.read i).x.toNat_lt
      have hsigned : signed 32 ((x.toNat : Int) - (s.slots.read i).x.toNat) =
          .ok ((x.toNat : Int) - (s.slots.read i).x.toNat) :=
        signed_ok (by omega)
      rw [checkedSolidFrom, solidFrom, s.slots.readAt_ok (by omega : i < 8), ok_bind, hsigned,
        ok_bind]
      by_cases hoff : x - (s.slots.read i).x.toUInt32 > 7
      · simp only [hoff, if_true, decide_true, Bool.true_or]
        exact hrest
      · have hle : x - (s.slots.read i).x.toUInt32 ≤ 7 := UInt32.not_lt.1 hoff
        simp only [hoff, if_false, decide_false, Bool.false_or, minus_long hle, ok_bind]
        split
        · exact hrest
        · rfl

theorem checkedPixel?_eq {s : Selection} (hs : s.count ≤ 8) {x : UInt32} (hx : x.toNat < 256) :
    s.checkedPixel? x = .ok (s.pixel? x) := by
  have hcount : s.count.toNat ≤ 8 := UInt8.le_iff_toNat_le.1 hs
  rw [checkedPixel?, s.checkedSolidFrom_eq hx _ _ (by omega), pixel?]
  split
  · rename_i hnone
    have hzero : s.count = 0 := by simpa using hnone
    rw [hzero]
    rfl
  · rfl

end Selection

namespace PictureUnit

/-- The background pixel of this dot. It is looked up before it is hidden. -/
def checkedBackground (left : Bool) (p : PictureUnit) : Checked UInt8 :=
  if !hasBits p.mask maskBackground then return 0
  else do
    let pixel ← p.tile.checkedPixel p.scroll.fineX
    return if left && !hasBits p.mask maskBackgroundLeft then 0 else pixel

/-- The sprite pixel of this dot and the sprite it belongs to. -/
def checkedSprite? (left : Bool) (x : UInt32) (p : PictureUnit) : Checked (Option (Slot × UInt8)) :=
  if !hasBits p.mask maskSprites then return none
  else do
    let sprite? ← p.selection.checkedPixel? x
    return if left && !hasBits p.mask maskSpritesLeft then none else sprite?

def checkedPlot (colour : UInt8) (p : PictureUnit) : Checked PictureUnit := do
  let x ← minus p.beam.dot 1
  let light ← checkedShade p.mask colour
  let screen ← p.screen.writeAt (p.beam.line.toNat * screenWidth + x.toNat) light
  return { p with screen }

def checkedColour (entry : UInt8) (p : PictureUnit) : Checked UInt8 := do
  let cell ← checkedPaletteCell entry.toUInt16
  p.palette.readAt cell

def checkedDrawPixel (p : PictureUnit) : Checked PictureUnit := do
  let x ← minus p.beam.dot.toUInt32 1
  let left := x < 8
  let background ← p.checkedBackground left
  let sprite? ← p.checkedSprite? left x
  let solid := background &&& 0x03 != 0
  match sprite? with
  | none => do
    let colour ← p.checkedColour (if solid then background else 0)
    p.checkedPlot colour
  | some (slot, sprite) =>
    if !solid then do
      let colour ← p.checkedColour (sprite ||| 0x10)
      p.checkedPlot colour
    else do
      let hit := slot.index == 0 && x < 255
      let colour ← p.checkedColour (if slot.behind then background else sprite ||| 0x10)
      { p with spriteZeroHit := p.spriteZeroHit || hit }.checkedPlot colour

def checkedDrawBackdrop (p : PictureUnit) : Checked PictureUnit :=
  if p.beam.onVisibleLine && p.beam.onVisibleDot then do
    let colour ← p.palette.readAt 0
    p.checkedPlot colour
  else return p

/-- The beam is on a point of the screen. -/
def OnScreen (p : PictureUnit) : Prop :=
  p.beam.line.toNat < 240 ∧ 1 ≤ p.beam.dot.toNat ∧ p.beam.dot.toNat ≤ 256

variable {p : PictureUnit} {b : Board}

theorem onScreen_iff :
    (p.beam.onVisibleLine && p.beam.onVisibleDot) = true ↔ p.OnScreen :=
  Beam.visible_iff

theorem checkedBackground_eq (h : p.InRange) (left : Bool) :
    p.checkedBackground left = .ok (p.backgroundPixel left) := by
  unfold checkedBackground backgroundPixel
  rw [TileFetch.checkedPixel_eq h.scroll.fineX]
  cases hasBits p.mask maskBackground <;> rfl

theorem checkedSprite?_eq (h : p.InRange) (left : Bool) {x : UInt32} (hx : x.toNat < 256) :
    p.checkedSprite? left x = .ok (p.spritePixel? left x) := by
  unfold checkedSprite? spritePixel?
  rw [Selection.checkedPixel?_eq h.count hx]
  cases hasBits p.mask maskSprites <;> rfl

theorem checkedPlot_eq (h : p.OnScreen) (colour : UInt8) :
    p.checkedPlot colour = .ok (p.plot colour) := by
  obtain ⟨hline, hlow, hhigh⟩ := h
  have hle : 1 ≤ p.beam.dot := UInt16.le_iff_toNat_le.2 hlow
  have hx : (p.beam.dot - 1).toNat = p.beam.dot.toNat - 1 := UInt16.toNat_sub_of_le _ _ hle
  have hcell : p.beam.line.toNat * screenWidth + (p.beam.dot.toNat - 1) < 61440 := by
    simp only [screenWidth]
    omega
  rw [checkedPlot, minus_word hle, ok_bind, checkedShade_eq, ok_bind, hx, Memory.writeAt_ok _ hcell]
  rfl

theorem checkedColour_eq (entry : UInt8) (p : PictureUnit) :
    p.checkedColour entry = .ok (p.colour entry) := by
  rw [checkedColour, checkedPaletteCell_eq, ok_bind, Memory.readAt_ok _ (paletteCell_lt _),
    UInt8.toNat_toUInt16]
  rfl

theorem checkedDrawPixel_eq (h : p.InRange) (hscreen : p.OnScreen) :
    p.checkedDrawPixel = .ok p.drawPixel := by
  obtain ⟨hline, hlow, hhigh⟩ := hscreen
  have hle : 1 ≤ p.beam.dot.toUInt32 := by
    rw [UInt32.le_iff_toNat_le, UInt16.toNat_toUInt32]
    exact hlow
  have hx : (p.beam.dot.toUInt32 - 1).toNat < 256 := by
    rw [UInt32.toNat_sub_of_le _ _ hle, UInt16.toNat_toUInt32]
    simp only [UInt32.reduceToNat]
    omega
  rw [checkedDrawPixel, minus_long hle, ok_bind, drawPixel]
  simp only [checkedBackground_eq h, checkedSprite?_eq h _ hx, checkedColour_eq, ok_bind]
  cases p.spritePixel? (decide (p.beam.dot.toUInt32 - 1 < 8)) (p.beam.dot.toUInt32 - 1) with
  | none => exact checkedPlot_eq ⟨hline, hlow, hhigh⟩ _
  | some hit =>
      -- the sprite is in front of nothing, or meets a solid background
      simp only []
      split
      · exact checkedPlot_eq ⟨hline, hlow, hhigh⟩ _
      · refine checkedPlot_eq ?_ _
        exact ⟨hline, hlow, hhigh⟩

theorem checkedDrawBackdrop_eq (p : PictureUnit) : p.checkedDrawBackdrop = .ok p.drawBackdrop := by
  unfold checkedDrawBackdrop drawBackdrop
  by_cases hvisible : (p.beam.onVisibleLine && p.beam.onVisibleDot) = true
  · rw [if_pos hvisible, if_pos hvisible, Memory.readAt_ok _ (by decide : 0 < 32), ok_bind,
      checkedPlot_eq (onScreen_iff.1 hvisible)]
  · rw [if_neg hvisible, if_neg hvisible]
    rfl

/-! ## Background -/

def checkedFetchTile (b : Board) (p : PictureUnit) : Checked PictureUnit :=
  let v := p.scroll.v
  let tile := p.tile.shift
  match p.beam.dot % 8 with
  | 1 => do
    let name ← p.checkedFetch b (TileFetch.nameAddress v)
    return { p with tile := { tile with name } }
  | 3 => do
    let attributes ← p.checkedFetch b (TileFetch.attributeAddress v)
    return { p with tile := { tile with palette := TileFetch.quarter v attributes } }
  | 5 => do
    let address ← tile.checkedPatternAddress p.backgroundTable v
    let low ← p.checkedFetch b address
    return { p with tile := { tile with low } }
  | 7 => do
    let address ← tile.checkedPatternAddress p.backgroundTable v
    let upper ← plus address 8
    let high ← p.checkedFetch b upper
    return { p with tile := { tile with high } }
  | 0 => do
    let v ← Scroll.checkedNextColumn v
    return { p with tile := tile.store, scroll := { p.scroll with v } }
  | _ => return p.fetchTile b

def checkedMoveScroll (p : PictureUnit) : Checked PictureUnit :=
  if p.beam.dot == 256 then do
    let v ← Scroll.checkedNextRow p.scroll.v
    return { p with scroll := { p.scroll with v } }
  else return p.moveScroll

theorem backgroundTable_le (p : PictureUnit) : p.backgroundTable ≤ 0x1000 := by
  unfold backgroundTable
  split <;> decide

theorem checkedFetchTile_eq (h : p.InRange) (hb : b.InRange) :
    p.checkedFetchTile b = .ok (p.fetchTile b) := by
  obtain ⟨haddress, hlt⟩ :=
    TileFetch.checkedPatternAddress_eq p.backgroundTable_le p.scroll.v p.tile.shift
  have hupper : plus (p.tile.shift.patternAddress p.backgroundTable p.scroll.v) 8 =
      .ok (p.tile.shift.patternAddress p.backgroundTable p.scroll.v + 8) :=
    plus_word (by simp only [UInt16.reduceToNat]; omega)
  unfold checkedFetchTile
  simp only [haddress, hupper, checkedFetch_eq hb, Scroll.checkedNextColumn_eq h.scroll.v, ok_bind]
  split
  case h_6 => rfl
  all_goals
    rename_i hdot
    simp only [pure_eq, fetchTile, hdot]

theorem checkedMoveScroll_eq (h : p.InRange) : p.checkedMoveScroll = .ok p.moveScroll := by
  unfold checkedMoveScroll
  by_cases hdown : (p.beam.dot == 256) = true
  · rw [if_pos hdown, Scroll.checkedNextRow_eq h.scroll.v, moveScroll]
    simp only [hdown, if_true]
    rfl
  · rw [if_neg hdown]
    rfl

end PictureUnit

/-! ## Sprites -/

def SpriteMemory.checkedSprite (m : SpriteMemory) (i : Nat) : Checked Sprite := do
  let y ← m.readAt (i * 4)
  let tile ← m.readAt (i * 4 + 1)
  let attributes ← m.readAt (i * 4 + 2)
  let x ← m.readAt (i * 4 + 3)
  return { y, tile, attributes, x }

theorem SpriteMemory.checkedSprite_eq (m : SpriteMemory) {i : Nat} (hi : i < 64) :
    m.checkedSprite i = .ok (m.sprite i) := by
  rw [checkedSprite, m.readAt_ok (by omega : i * 4 < 256), ok_bind,
    m.readAt_ok (by omega : i * 4 + 1 < 256), ok_bind, m.readAt_ok (by omega : i * 4 + 2 < 256),
    ok_bind, m.readAt_ok (by omega : i * 4 + 3 < 256)]
  rfl

/-- A row, counted from the other end if the sprite is upside down. -/
def flip (upsideDown : Bool) (last row : UInt16) : Checked UInt16 :=
  if upsideDown then minus last row else return row

def Sprite.checkedPatternAddress (tall : Bool) (table row : UInt16) (s : Sprite) : Checked UInt16 :=
  let upsideDown := hasBits s.attributes 0x80
  if tall then do
    let row ← flip upsideDown 15 row
    let table := (s.tile &&& 1).toUInt16 * 0x1000
    let tile := s.tile &&& 0xFE
    if row > 7 then do
      let tile ← plus tile 1
      let row ← minus row 8
      let start ← plus table (tile.toUInt16 * 16)
      plus start row
    else do
      let start ← plus table (tile.toUInt16 * 16)
      plus start row
  else do
    let row ← flip upsideDown 7 row
    let start ← plus table (s.tile.toUInt16 * 16)
    plus start row

/-- The row of a tile of a pattern table. -/
theorem plus_row {table tile row : UInt16} (htable : table ≤ 0x1000) (htile : tile.toNat < 256)
    (hrow : row < 8) :
    (do let start ← plus table (tile * 16); plus start row) = .ok (table + tile * 16 + row) ∧
      (table + tile * 16 + row).toNat < 0x2000 := by
  have hle : table.toNat ≤ 0x1000 := UInt16.le_iff_toNat_le.1 htable
  have hlt : row.toNat < 8 := UInt16.lt_iff_toNat_lt.1 hrow
  have hscaled : (tile * 16).toNat = tile.toNat * 16 := by
    rw [UInt16.toNat_mul]
    simp only [UInt16.reduceToNat]
    omega
  have hstart : (table + tile * 16).toNat = table.toNat + tile.toNat * 16 := by
    rw [UInt16.toNat_add, hscaled]
    omega
  constructor
  · rw [plus_word (by omega), ok_bind, plus_word (by omega)]
  · rw [UInt16.toNat_add, hstart]
    omega

theorem flip_eq (upsideDown : Bool) {last row : UInt16} (h : row ≤ last) :
    flip upsideDown last row = .ok (if upsideDown then last - row else row) ∧
      (if upsideDown then last - row else row) ≤ last := by
  cases upsideDown with
  | false => exact ⟨rfl, h⟩
  | true =>
      refine ⟨minus_word h, ?_⟩
      simp only [if_true]
      rw [UInt16.le_iff_toNat_le, UInt16.toNat_sub_of_le _ _ h]
      exact Nat.sub_le _ _

/-- The lowest bit of a tall sprite selects one of the two tables. -/
theorem selectedTable_le (tile : UInt8) : (tile &&& 1).toUInt16 * 0x1000 ≤ 0x1000 := by
  have hbit : (tile &&& 1).toNat = tile.toNat % 2 := Byte.toNat_and_low tile 1 rfl
  rw [UInt16.le_iff_toNat_le, UInt16.toNat_mul, UInt8.toNat_toUInt16, hbit]
  simp only [UInt16.reduceToNat]
  omega

/-- The upper one of two tiles has an even number, and the lower one the next. -/
theorem plus_even (tile : UInt8) :
    plus (tile &&& 0xFE) 1 = .ok ((tile &&& 0xFE) + 1) ∧
      ((tile &&& 0xFE) + 1).toUInt16 = (tile &&& 0xFE).toUInt16 + 1 := by
  have heven : (tile &&& 0xFE).toNat < 255 := by
    rw [UInt8.toNat_and]
    exact Nat.lt_of_le_of_lt Nat.and_le_right (by decide)
  constructor
  · exact plus_byte (by simp only [UInt8.reduceToNat]; omega)
  · rw [← UInt16.toNat_inj, UInt8.toNat_toUInt16, UInt8.toNat_add, UInt16.toNat_add,
      UInt8.toNat_toUInt16]
    simp only [UInt8.reduceToNat, UInt16.reduceToNat]
    omega

theorem Sprite.checkedPatternAddress_eq (s : Sprite) {tall : Bool} {table row : UInt16}
    (htable : table ≤ 0x1000) (hrow : row < if tall then 16 else 8) :
    s.checkedPatternAddress tall table row = .ok (s.patternAddress tall table row) ∧
      (s.patternAddress tall table row).toNat < 0x2000 := by
  have hlt := UInt16.lt_iff_toNat_lt.1 hrow
  cases tall with
  | false =>
      have hle : row ≤ 7 := UInt16.le_iff_toNat_le.2 (Nat.le_of_lt_succ hlt)
      obtain ⟨hflip, hlast⟩ := flip_eq (hasBits s.attributes 0x80) hle
      simp only [checkedPatternAddress, patternAddress, Bool.false_eq_true, if_false, hflip,
        ok_bind]
      exact plus_row htable s.tile.toNat_lt (UInt16.lt_iff_toNat_lt.2 (Nat.lt_succ_of_le hlast))
  | true =>
      have hle : row ≤ 15 := UInt16.le_iff_toNat_le.2 (Nat.le_of_lt_succ hlt)
      obtain ⟨hflip, hlast⟩ := flip_eq (hasBits s.attributes 0x80) hle
      have hselected := selectedTable_le s.tile
      obtain ⟨hnext, hword⟩ := plus_even s.tile
      simp only [checkedPatternAddress, patternAddress, if_true, hflip, hnext, ok_bind, hword]
      generalize (if hasBits s.attributes 0x80 then 15 - row else row) = r at hlast
      have hr : r.toNat ≤ 15 := UInt16.le_iff_toNat_le.1 hlast
      by_cases hlower : r > 7
      · -- the row lies in the lower one of the two tiles
        have hbelow : 8 ≤ r := UInt16.le_iff_toNat_le.2 (UInt16.lt_iff_toNat_lt.1 hlower)
        have hrest : r - 8 < 8 := by
          rw [UInt16.lt_iff_toNat_lt, UInt16.toNat_sub_of_le _ _ hbelow]
          simp only [UInt16.reduceToNat]
          omega
        have htile : ((s.tile &&& 0xFE).toUInt16 + 1).toNat < 256 := by
          rw [← hword, UInt8.toNat_toUInt16]
          exact UInt8.toNat_lt _
        simp only [hlower, if_true, minus_word hbelow, ok_bind]
        exact plus_row hselected htile hrest
      · -- the row lies in the upper one
        have hupper : r < 8 := UInt16.lt_iff_toNat_lt.2
          (Nat.lt_succ_of_le (UInt16.le_iff_toNat_le.1 (UInt16.not_lt.1 hlower)))
        simp only [hlower, if_false]
        exact plus_row hselected (s.tile &&& 0xFE).toNat_lt hupper

namespace PictureUnit

/-- The numbers of the sprites that reach the line below this one. -/
def checkedReaching (p : PictureUnit) : Checked (List Nat) :=
  Checked.filter
    (fun i => do
      let s ← p.sprites.checkedSprite i
      return s.row p.beam.line < p.spriteHeight)
    (List.range 64)

def checkedFetchSprite (b : Board) (p : PictureUnit) (i : Nat) : Checked Slot := do
  let s ← p.sprites.checkedSprite i
  let address ← s.checkedPatternAddress p.tallSprites p.spriteTable (s.row p.beam.line)
  let low ← p.checkedFetch b address
  let upper ← plus address 8
  let high ← p.checkedFetch b upper
  return { pattern := s.packed low high, x := s.x, behind := hasBits s.attributes 0x20
           index := i.toUInt8 }

def checkedSelectSprites (b : Board) (p : PictureUnit) : Checked PictureUnit := do
  let reaching ← p.checkedReaching
  let fetched ← Checked.map (p.checkedFetchSprite b) (reaching.take 8)
  let slots ← p.selection.slots.writeAllAt 0 fetched
  return { p with
    selection := { count := fetched.length.toUInt8, slots }
    spriteOverflow := p.spriteOverflow || reaching.length > 8 }

def checkedUpdateSelection (b : Board) (p : PictureUnit) : Checked PictureUnit :=
  if p.beam.dot == 257 && p.beam.onVisibleLine then p.checkedSelectSprites b
  else return p.updateSelection b

variable {p : PictureUnit} {b : Board}

theorem checkedReaching_eq (p : PictureUnit) : p.checkedReaching = .ok p.reachingSprites := by
  refine filter_ok fun i hi => ?_
  rw [SpriteMemory.checkedSprite_eq _ (List.mem_range.1 hi)]
  rfl

theorem spriteTable_le (p : PictureUnit) : p.spriteTable ≤ 0x1000 := by
  unfold spriteTable
  split <;> decide

theorem checkedFetchSprite_eq (hb : b.InRange) {i : Nat} (hi : i ∈ p.reachingSprites) :
    p.checkedFetchSprite b i = .ok (p.fetchSprite b i) := by
  obtain ⟨hlt, hreaches⟩ := List.mem_filter.1 hi
  have hrow : (p.sprites.sprite i).row p.beam.line < if p.tallSprites then 16 else 8 :=
    of_decide_eq_true hreaches
  obtain ⟨haddress, haddresslt⟩ :=
    Sprite.checkedPatternAddress_eq (p.sprites.sprite i) p.spriteTable_le hrow
  rw [checkedFetchSprite, SpriteMemory.checkedSprite_eq _ (List.mem_range.1 hlt), ok_bind, haddress,
    ok_bind, checkedFetch_eq hb, ok_bind, plus_word (by simp only [UInt16.reduceToNat]; omega),
    ok_bind, checkedFetch_eq hb]
  rfl

theorem checkedSelectSprites_eq (hb : b.InRange) (p : PictureUnit) :
    p.checkedSelectSprites b = .ok (p.selectSprites b) := by
  -- only sprites that reach the line are fetched, so that the row is one of theirs
  have hfetched : Checked.map (p.checkedFetchSprite b) (p.reachingSprites.take 8) =
      .ok ((p.reachingSprites.take 8).map (p.fetchSprite b)) :=
    map_ok fun i hi => checkedFetchSprite_eq hb (List.mem_of_mem_take hi)
  have hroom : 0 + ((p.reachingSprites.take 8).map (p.fetchSprite b)).length ≤ 8 := by
    rw [List.length_map, List.length_take]
    omega
  rw [checkedSelectSprites, checkedReaching_eq, ok_bind, hfetched, ok_bind,
    Memory.writeAllAt_ok _ hroom]
  rfl

theorem checkedUpdateSelection_eq (hb : b.InRange) (p : PictureUnit) :
    p.checkedUpdateSelection b = .ok (p.updateSelection b) := by
  unfold checkedUpdateSelection
  by_cases hselects : (p.beam.dot == 257 && p.beam.onVisibleLine) = true
  · obtain ⟨hdot, hline⟩ := (Bool.and_eq_true _ _).mp hselects
    rw [if_pos hselects, checkedSelectSprites_eq hb, updateSelection, if_pos hdot, if_pos hline]
  · rw [if_neg hselects]
    rfl

/-! ## Dots -/

/-- The pixel of this dot, if it has one. -/
def checkedDraw (p : PictureUnit) : Checked PictureUnit :=
  if p.beam.onVisibleLine && p.beam.onVisibleDot then p.checkedDrawPixel else return p

/-- The fetch of this dot, if it has one. -/
def checkedFetchBackground (b : Board) (p : PictureUnit) : Checked PictureUnit :=
  if p.beam.onFetchDot then p.checkedFetchTile b else return p

def checkedRender (b : Board) (p : PictureUnit) : Checked PictureUnit :=
  if p.beam.onVisibleLine || p.beam.line == preRenderLine then do
    let drawn ← p.checkedDraw
    let fetched ← drawn.checkedFetchBackground b
    let moved ← fetched.checkedMoveScroll
    moved.checkedUpdateSelection b
  else p.checkedUpdateSelection b

def checkedAdvance (p : PictureUnit) : Checked PictureUnit := do
  let nmi ← p.nmi.checkedAdvance
  let beam ← p.beam.checkedAdvance p.rendering
  return { p with beam, nmi }

def checkedTick (b : Board) (p : PictureUnit) : Checked PictureUnit := do
  let moved ← p.checkedAdvance
  let shown ← if moved.rendering then moved.checkedRender b else moved.checkedDrawBackdrop
  return shown.updateFlags

theorem checkedDraw_eq (h : p.InRange) :
    p.checkedDraw =
      .ok (if p.beam.onVisibleLine && p.beam.onVisibleDot then p.drawPixel else p) := by
  unfold checkedDraw
  split
  · rename_i hvisible
    exact checkedDrawPixel_eq h (onScreen_iff.1 hvisible)
  · rfl

theorem checkedFetchBackground_eq (h : p.InRange) (hb : b.InRange) :
    p.checkedFetchBackground b = .ok (if p.beam.onFetchDot then p.fetchTile b else p) := by
  unfold checkedFetchBackground
  split
  · exact checkedFetchTile_eq h hb
  · rfl

theorem checkedRender_eq (h : p.InRange) (hb : b.InRange) :
    p.checkedRender b = .ok (p.render b) := by
  -- each part of the dot keeps the widths that the next one relies on
  have hdrawn :
      (if p.beam.onVisibleLine && p.beam.onVisibleDot then p.drawPixel else p).InRange := by
    split
    · exact h.drawPixel
    · exact h
  unfold checkedRender render
  by_cases hline : (p.beam.onVisibleLine || p.beam.line == preRenderLine) = true
  · rw [if_pos hline, if_pos hline, checkedDraw_eq h, ok_bind]
    simp only []
    generalize (if p.beam.onVisibleLine && p.beam.onVisibleDot then p.drawPixel else p) = q
      at hdrawn
    have hfetched : (if q.beam.onFetchDot then q.fetchTile b else q).InRange := by
      split
      · exact hdrawn.fetchTile b
      · exact hdrawn
    rw [checkedFetchBackground_eq hdrawn hb, ok_bind, checkedMoveScroll_eq hfetched, ok_bind,
      checkedUpdateSelection_eq hb]
  · rw [if_neg hline, if_neg hline, checkedUpdateSelection_eq hb]

theorem checkedAdvance_agrees (h : p.InRange) :
    Agrees p.checkedAdvance p.advance p.beam.InLastFrame := by
  rw [checkedAdvance, NmiLine.checkedAdvance_eq, ok_bind]
  exact (Beam.checkedAdvance_agrees h.beam p.rendering).bind (.of_eq rfl)

/-- **A dot passes all checks**, unless the count of frames has come to its end. -/
theorem checkedTick_agrees (h : p.InRange) (hb : b.InRange) :
    Agrees (p.checkedTick b) (p.tick b) p.beam.InLastFrame := by
  refine (checkedAdvance_agrees h).bind (.of_eq ?_)
  unfold tick
  simp only []
  by_cases hrendering : p.advance.rendering = true
  · rw [if_pos hrendering, if_pos hrendering, checkedRender_eq h.advance hb]
    rfl
  · rw [if_neg hrendering, if_neg hrendering, checkedDrawBackdrop_eq]
    rfl

end PictureUnit

end Famicom.Video
