import Famicom.Proofs.Word
import Famicom.Video.Rendering

/-!
# The registers of the picture unit keep their widths

The invariant of the picture unit: the scroll registers have fifteen and three
bits, the beam is on the picture and at most eight sprites are selected.

* **preservation** — it holds at power-on and after every register access and
  every dot (`PictureUnit.InRange.tick`);
* **restoring** — a restore establishes it (`PictureUnit.inRange_restore`), and
  changes nothing where it holds (`PictureUnit.InRange.restore_save`).
-/

namespace Famicom.Video

open Cartridge

/-! ## Scrolling -/

namespace Scroll

/-- The scroll registers keep within their fifteen and three bits. -/
structure InRange (s : Scroll) : Prop where
  v : s.v < 0x8000
  t : s.t < 0x8000
  fineX : s.fineX < 8

theorem merge_lt (mask : UInt16) {source w : UInt16} (hs : source < 0x8000) (hw : w < 0x8000) :
    merge mask source w < 0x8000 := by
  have hkept := Word.and_lt (~~~mask) hw
  have htaken := Word.and_lt mask hs
  rw [UInt16.lt_iff_toNat_lt] at hkept htaken ⊢
  exact Word.or_lt 15 hkept htaken

/-- Bits from a word of any size, if the mask has fifteen bits only. -/
theorem merge_lt_of_mask {mask : UInt16} (hm : mask < 0x8000) (source : UInt16) {w : UInt16}
    (hw : w < 0x8000) : merge mask source w < 0x8000 := by
  have hkept := Word.and_lt (~~~mask) hw
  have htaken := Word.and_lt source hm
  rw [UInt16.and_comm] at htaken
  rw [UInt16.lt_iff_toNat_lt] at hkept htaken ⊢
  exact Word.or_lt 15 hkept htaken

theorem xor_lt {x y : UInt16} (hx : x < 0x8000) (hy : y < 0x8000) : x ^^^ y < 0x8000 := by
  rw [UInt16.lt_iff_toNat_lt] at *
  exact Word.xor_lt 15 hx hy

/-- Inside a row the column is less than 31, so the address is not the last. -/
theorem lt_of_column {v : UInt16} (hv : v < 0x8000) (h : v &&& columnBits ≠ 31) : v < 0x7FFF := by
  have hcolumn : (v &&& columnBits).toNat ≠ 31 := fun he => h (UInt16.toNat_inj.1 he)
  rw [Word.toNat_and_low v 5 rfl] at hcolumn
  rw [UInt16.lt_iff_toNat_lt] at hv ⊢
  simp only [UInt16.reduceToNat] at hv ⊢
  omega

/-- Above the last row of a tile the three highest bits are not all set. -/
theorem lt_of_fine {v : UInt16} (hv : v < 0x8000) (h : v &&& fineBits ≠ fineBits) :
    v < 0x7000 := by
  have hfine : (v &&& fineBits).toNat ≠ 0x7000 := fun he => h (UInt16.toNat_inj.1 he)
  rw [Word.toNat_and_field v 12 3 rfl] at hfine
  rw [UInt16.lt_iff_toNat_lt] at hv ⊢
  simp only [UInt16.reduceToNat] at hv ⊢
  omega

theorem nextColumn_lt {v : UInt16} (hv : v < 0x8000) : nextColumn v < 0x8000 := by
  unfold nextColumn
  split
  · exact xor_lt (Word.and_lt _ hv) (by decide)
  · rename_i h
    have := lt_of_column hv (by simpa using h)
    grind

theorem atRow_lt (row : UInt16) {v : UInt16} (hv : v < 0x8000) : atRow row v < 0x8000 :=
  merge_lt_of_mask (by decide) _ (Word.and_lt _ hv)

theorem nextRow_lt {v : UInt16} (hv : v < 0x8000) : nextRow v < 0x8000 := by
  unfold nextRow
  split
  · rename_i h
    have := lt_of_fine hv (by simpa using h)
    grind
  · simp only []
    split
    · exact xor_lt (atRow_lt _ hv) (by decide)
    split
    · exact atRow_lt _ hv
    · exact atRow_lt _ hv

theorem InRange.writeScroll {s : Scroll} (h : s.InRange) (value : UInt8) :
    (s.writeScroll value).InRange := by
  unfold Scroll.writeScroll
  split
  · exact ⟨h.v, merge_lt_of_mask (by decide) _ (merge_lt_of_mask (by decide) _ h.t), h.fineX⟩
  · exact ⟨h.v, merge_lt_of_mask (by decide) _ h.t, Byte.and_low_lt value 3 rfl rfl⟩

theorem InRange.writeAddress {s : Scroll} (h : s.InRange) (value : UInt8) :
    (s.writeAddress value).InRange := by
  unfold Scroll.writeAddress
  split
  · have ht := @merge_lt_of_mask 0x00FF (by decide) value.toUInt16 _ h.t
    exact ⟨ht, ht, h.fineX⟩
  · exact ⟨h.v, merge_lt_of_mask (by decide) _ h.t, h.fineX⟩

theorem InRange.selectTable {s : Scroll} (h : s.InRange) (control : UInt8) :
    (s.selectTable control).InRange :=
  ⟨h.v, merge_lt_of_mask (by decide) _ h.t, h.fineX⟩

theorem InRange.skip {s : Scroll} (h : s.InRange) (step : UInt16) : (s.skip step).InRange :=
  ⟨Word.and_low_lt _ 15 rfl rfl, h.t, h.fineX⟩

end Scroll

/-! ## The picture unit -/

theorem paletteCell_lt (address : Nat) : paletteCell address < 32 := by
  unfold paletteCell
  simp only []
  split <;> omega

namespace PictureUnit

/-- The registers and counters keep their widths. -/
structure InRange (p : PictureUnit) : Prop where
  scroll : p.scroll.InRange
  beam : p.beam.OnPicture
  count : p.selection.count ≤ 8

/-- The invariant says nothing about the rest of the picture unit. -/
theorem InRange.of_eq {p q : PictureUnit} (h : p.InRange) (hscroll : q.scroll = p.scroll)
    (hbeam : q.beam = p.beam) (hselection : q.selection = p.selection) : q.InRange :=
  ⟨hscroll ▸ h.scroll, hbeam ▸ h.beam, hselection ▸ h.count⟩

/-! ### Registers -/

theorem InRange.reset {p : PictureUnit} (h : p.InRange) : p.reset.InRange :=
  ⟨h.scroll.selectTable 0, ⟨show (240 : UInt16) ≤ 261 by decide, UInt16.le_refl 340⟩, h.count⟩

theorem inRange_powerOn : powerOn.InRange :=
  InRange.reset ⟨⟨by decide, by decide, by decide⟩, ⟨by decide, by decide⟩, by decide⟩

theorem InRange.takeNmi {p : PictureUnit} (h : p.InRange) : p.takeNmi.2.InRange := by
  unfold PictureUnit.takeNmi
  split
  · exact h.of_eq rfl rfl rfl
  · exact h

theorem InRange.skip {p : PictureUnit} (h : p.InRange) : p.skip.InRange :=
  ⟨h.scroll.skip _, h.beam, h.count⟩

theorem InRange.store {p : PictureUnit} (h : p.InRange) (b : Board) (address : UInt16)
    (value : UInt8) : (p.store b address value).1.InRange := by
  unfold PictureUnit.store
  simp only []
  split
  · exact h
  split
  · exact h.of_eq rfl rfl rfl
  · exact h.of_eq rfl rfl rfl

theorem InRange.readData {p : PictureUnit} (h : p.InRange) (b : Board) :
    (p.readData b).2.InRange := by
  unfold PictureUnit.readData
  simp only []
  split
  · exact InRange.skip (h.of_eq rfl rfl rfl)
  · exact InRange.skip (h.of_eq rfl rfl rfl)

theorem InRange.readRegister {p : PictureUnit} (h : p.InRange) (b : Board) (register : UInt16) :
    (p.readRegister b register).2.InRange := by
  unfold PictureUnit.readRegister
  split
  · exact ⟨⟨h.scroll.v, h.scroll.t, h.scroll.fineX⟩, h.beam, h.count⟩
  · exact h
  · exact h.readData b
  · exact h

theorem InRange.writeRegister {p : PictureUnit} (h : p.InRange) (b : Board) (register : UInt16)
    (value : UInt8) : (p.writeRegister b register value).1.InRange := by
  have hp : { p with lastWrite := value }.InRange := h.of_eq rfl rfl rfl
  unfold PictureUnit.writeRegister
  simp only []
  split
  · exact ⟨h.scroll.selectTable value, h.beam, h.count⟩
  · exact h.of_eq rfl rfl rfl
  · exact h.of_eq rfl rfl rfl
  · exact h.of_eq rfl rfl rfl
  · exact ⟨h.scroll.writeScroll value, h.beam, h.count⟩
  · exact ⟨h.scroll.writeAddress value, h.beam, h.count⟩
  · exact (hp.store b _ value).skip
  · exact hp

theorem InRange.writeSprite {p : PictureUnit} (h : p.InRange) (address value : UInt8) :
    (p.writeSprite address value).InRange :=
  h.of_eq rfl rfl rfl

/-! ### Dots -/

theorem InRange.withV {p : PictureUnit} (h : p.InRange) {v : UInt16} (hv : v < 0x8000) :
    { p with scroll := { p.scroll with v } }.InRange :=
  ⟨⟨hv, h.scroll.t, h.scroll.fineX⟩, h.beam, h.count⟩

theorem InRange.advance {p : PictureUnit} (h : p.InRange) : p.advance.InRange :=
  ⟨h.scroll, h.beam.advance p.rendering, h.count⟩

theorem InRange.drawBackdrop {p : PictureUnit} (h : p.InRange) : p.drawBackdrop.InRange := by
  unfold PictureUnit.drawBackdrop
  split
  · exact h.of_eq rfl rfl rfl
  · exact h

theorem InRange.drawPixel {p : PictureUnit} (h : p.InRange) : p.drawPixel.InRange := by
  unfold PictureUnit.drawPixel
  simp only []
  split
  · exact h.of_eq rfl rfl rfl
  split
  · exact h.of_eq rfl rfl rfl
  · exact h.of_eq rfl rfl rfl

theorem InRange.fetchTile {p : PictureUnit} (h : p.InRange) (b : Board) :
    (p.fetchTile b).InRange := by
  unfold PictureUnit.fetchTile
  simp only []
  split
  · exact h.of_eq rfl rfl rfl
  · exact h.of_eq rfl rfl rfl
  · exact h.of_eq rfl rfl rfl
  · exact h.of_eq rfl rfl rfl
  · exact (h.withV (Scroll.nextColumn_lt h.scroll.v)).of_eq rfl rfl rfl
  · exact h.of_eq rfl rfl rfl

theorem InRange.moveScroll {p : PictureUnit} (h : p.InRange) : p.moveScroll.InRange := by
  unfold PictureUnit.moveScroll
  simp only []
  split
  · exact h.withV (Scroll.nextRow_lt h.scroll.v)
  split
  · exact h.withV (Scroll.merge_lt _ h.scroll.t h.scroll.v)
  split
  · exact h.withV (Scroll.merge_lt _ h.scroll.t h.scroll.v)
  · exact h

/-- There is room for eight sprites, and no more than that are fetched. -/
theorem InRange.selectSprites {p : PictureUnit} (h : p.InRange) (b : Board) :
    (p.selectSprites b).InRange := by
  refine ⟨h.scroll, h.beam, ?_⟩
  show ((p.reachingSprites.take 8).map (p.fetchSprite b)).length.toUInt8 ≤ 8
  have hlength : ((p.reachingSprites.take 8).map (p.fetchSprite b)).length ≤ 8 := by
    rw [List.length_map, List.length_take]
    exact Nat.min_le_left 8 _
  rw [UInt8.le_iff_toNat_le]
  simp only [Nat.toUInt8_eq, UInt8.toNat_ofNat', UInt8.reduceToNat]
  omega

theorem InRange.updateSelection {p : PictureUnit} (h : p.InRange) (b : Board) :
    (p.updateSelection b).InRange := by
  unfold PictureUnit.updateSelection
  split
  · split
    · exact h.selectSprites b
    · exact ⟨h.scroll, h.beam, UInt8.zero_le⟩
  · exact h

theorem InRange.render {p : PictureUnit} (h : p.InRange) (b : Board) : (p.render b).InRange := by
  have drawn :
      (if p.beam.onVisibleLine && p.beam.onVisibleDot then p.drawPixel else p).InRange := by
    split
    · exact h.drawPixel
    · exact h
  unfold PictureUnit.render
  split
  · simp only []
    refine InRange.updateSelection (InRange.moveScroll ?_) b
    generalize (if p.beam.onVisibleLine && p.beam.onVisibleDot then p.drawPixel else p) = q
      at drawn ⊢
    split
    · exact drawn.fetchTile b
    · exact drawn
  · exact h.updateSelection b

theorem InRange.updateFlags {p : PictureUnit} (h : p.InRange) : p.updateFlags.InRange := by
  unfold PictureUnit.updateFlags
  split
  · split
    · exact h.of_eq rfl rfl rfl
    split
    · exact h.of_eq rfl rfl rfl
    · exact h
  · exact h

/-- A dot keeps all widths. -/
theorem InRange.tick {p : PictureUnit} (h : p.InRange) (b : Board) : (p.tick b).InRange := by
  unfold PictureUnit.tick
  refine InRange.updateFlags ?_
  split
  · exact h.advance.render b
  · exact h.advance.drawBackdrop

/-! ### Saved pictures -/

/-- A restore establishes the widths, whatever was saved. -/
theorem inRange_restore (saved : SavedPicture) : (restore saved).InRange := by
  refine ⟨⟨?_, ?_, ?_⟩, ⟨?_, ?_⟩, ?_⟩
  · exact Word.and_low_lt _ 15 rfl rfl
  · exact Word.and_low_lt _ 15 rfl rfl
  · exact Byte.and_low_lt _ 3 rfl rfl
  · exact Std.min_le_right
  · exact Std.min_le_right
  · exact Std.min_le_right

/-- Where all widths are kept, a restore gives back what was saved. -/
theorem InRange.restore_save {p : PictureUnit} (h : p.InRange) : restore p.save = p := by
  rcases p with ⟨⟨control, mask, spriteAddress, lastWrite, hit, overflow, scroll, buffer, beam,
    tile, selection, nmi⟩, nametables, palette, sprites, screen⟩
  rcases scroll with ⟨v, t, fineX, second⟩
  rcases beam with ⟨line, dot, frame, odd⟩
  rcases selection with ⟨count, slots⟩
  obtain ⟨⟨hv, ht, hx⟩, ⟨hline, hdot⟩, hcount⟩ := h
  have hv : v &&& 0x7FFF = v := Word.and_low_eq 15 rfl rfl hv
  have ht : t &&& 0x7FFF = t := Word.and_low_eq 15 rfl rfl ht
  have hx : fineX &&& 0x07 = fineX := Byte.and_low_eq 3 rfl rfl hx
  have hline : min line preRenderLine = line := if_pos hline
  have hdot : min dot lastDot = dot := if_pos hdot
  have hcount : min count 8 = count := if_pos hcount
  simp only [restore, save, Memory.ofImage_image, hv, ht, hx, hline, hdot, hcount]

end PictureUnit

end Famicom.Video
