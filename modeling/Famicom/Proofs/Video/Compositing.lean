import Famicom.Proofs.Video.Clock
import Famicom.Proofs.Video.Sprites

/-!
# Sprites before a background

A point of the screen has the colour of the sprite that shows there, or of the
background (`Composite.entry`). The background would be the same without sprites, so
that the two can be looked at one after the other:

* **background** — two picture units whose backgrounds are equal keep them equal,
  whatever sprites they show (`Abreast.tick`);
* **selection** — behind the visible part of a line the sprites of the next one are
  selected (`Selecting.dot`);
* **drawing** — a dot draws and records what the rule says
  (`Composite.drawPixel_eq`).
-/

namespace Famicom.Video

open Cartridge

/-! ## The rule -/

/-- Sprites before a background. -/
structure Composite where
  scene : Scene
  palette : Memory UInt8 32
  mask : UInt8
  /-- The pixels of the background, by column and line. -/
  background : Nat → Nat → Nat

namespace Composite

variable (c : Composite) (x y : Nat)

/-- Whether the background can be seen. -/
def solid : Bool := c.background x y % 4 != 0

/-- The palette entry of a point. The sprite is seen unless it is behind a solid
background, and where nothing is solid the backdrop is seen. -/
def entry : Nat :=
  match c.scene.winner x y with
  | none => if c.solid x y then c.background x y else 0
  | some i =>
    if c.solid x y && c.scene.behind i then c.background x y else 16 + c.scene.pixel i x y

/-- The colour of a point. -/
def colour : UInt8 := c.palette.read (c.entry x y)

/-- The light of a point of the screen. -/
def light : UInt32 := shade c.mask (c.colour x y)

/-- The first sprite of all shows on a solid background. The last column does not
count. -/
def hits : Bool := decide (x < 255) && c.scene.winner x y == some 0 && c.solid x y

/-- Background and sprites are shown, in the left columns too. -/
structure Shows : Prop where
  background : hasBits c.mask maskBackground = true
  backgroundLeft : hasBits c.mask maskBackgroundLeft = true
  sprites : hasBits c.mask maskSprites = true
  spritesLeft : hasBits c.mask maskSpritesLeft = true

/-- What a picture unit has to hold throughout. -/
structure Held (p : PictureUnit) : Prop where
  sprites : p.sprites = c.scene.sprites
  tall : hasBits p.control 0x20 = c.scene.tall
  upper : hasBits p.control 0x08 = c.scene.upper
  palette : p.palette = c.palette
  mask : p.mask = c.mask

end Composite

/-! ## The background -/

/-- The backgrounds of two picture units are in the same state. -/
structure Abreast (p q : PictureUnit) : Prop where
  control : q.control = p.control
  scroll : q.scroll = p.scroll
  beam : q.beam = p.beam
  tile : q.tile = p.tile
  nametables : q.nametables = p.nametables
  palette : q.palette = p.palette

namespace Abreast

variable {p q r : PictureUnit} {b b' : Board}

theorem trans (h : Abreast p q) (h' : Abreast q r) : Abreast p r :=
  ⟨h'.control.trans h.control, h'.scroll.trans h.scroll, h'.beam.trans h.beam,
    h'.tile.trans h.tile, h'.nametables.trans h.nametables, h'.palette.trans h.palette⟩

theorem symm (h : Abreast p q) : Abreast q p :=
  ⟨h.control.symm, h.scroll.symm, h.beam.symm, h.tile.symm, h.nametables.symm, h.palette.symm⟩

theorem of_view (h : q.view = p.view) : Abreast p q :=
  ⟨congrArg View.control h, congrArg View.scroll h, congrArg View.beam h, congrArg View.tile h,
    congrArg View.nametables h, congrArg View.palette h⟩

theorem fetch (h : Abreast p q) (hmirroring : b'.mirroring = b.mirroring)
    (hpattern : ∀ address, b'.readPattern address = b.readPattern address) (address : UInt16) :
    q.fetch b' address = p.fetch b address := by
  simp only [PictureUnit.fetch, hmirroring, hpattern, h.nametables, h.palette]

theorem fetchStep (h : Abreast p q) (hmirroring : b'.mirroring = b.mirroring)
    (hpattern : ∀ address, b'.readPattern address = b.readPattern address) :
    Abreast (p.fetchStep b) (q.fetchStep b') := by
  have hfetch := h.fetch hmirroring hpattern
  simp only [PictureUnit.fetchStep, h.beam]
  split
  · simp only [PictureUnit.fetchTile, PictureUnit.backgroundTable, hfetch, h.beam, h.tile, h.scroll,
      h.control]
    split <;> exact ⟨rfl, rfl, rfl, rfl, h.nametables, h.palette⟩
  · exact h

theorem moveScroll (h : Abreast p q) : Abreast p.moveScroll q.moveScroll := by
  simp only [PictureUnit.moveScroll, h.beam, h.scroll]
  split
  · exact ⟨h.control, rfl, rfl, h.tile, h.nametables, h.palette⟩
  split
  · exact ⟨h.control, rfl, rfl, h.tile, h.nametables, h.palette⟩
  split
  · exact ⟨h.control, rfl, rfl, h.tile, h.nametables, h.palette⟩
  · exact h

end Abreast

/-! ## Dots -/

namespace PictureUnit

variable {p : PictureUnit} {b : Board}

theorem drawStep_shape (p : PictureUnit) :
    ∃ screen hit, p.drawStep = { p with screen, spriteZeroHit := hit } := by
  unfold drawStep
  split
  · unfold drawPixel
    simp only []
    split
    · exact ⟨_, _, rfl⟩
    split
    · exact ⟨_, _, rfl⟩
    · exact ⟨_, _, rfl⟩
  · exact ⟨_, _, rfl⟩

/-- While something is shown a dot draws, moves the background on, updates the
selection and then the flags. -/
theorem tick_shape (hrendering : p.advance.rendering = true)
    (hplace : p.advance.beam.line.toNat < 240 ∨ p.advance.beam.line.toNat = 261 ∨
      p.advance.beam.dot.toNat = 0) :
    ∃ v tile, p.tick b = ({ p.advance.drawStep with
        tile, scroll := { p.scroll with v } }.updateSelection b).updateFlags := by
  have htick : p.tick b = (p.advance.render b).updateFlags := by
    unfold tick
    simp only []
    rw [if_pos hrendering]
  obtain ⟨screen, hit, hdraw⟩ := p.advance.drawStep_shape
  obtain ⟨v, tile, hfetch⟩ := Still.fetchStep_shape p.advance.drawStep b
  obtain ⟨v', hmove⟩ := Still.moveScroll_shape (p.advance.drawStep.fetchStep b)
  rw [htick, render]
  by_cases hline : (p.advance.beam.onVisibleLine || p.advance.beam.line == preRenderLine) = true
  · rw [if_pos hline]
    refine ⟨v', tile, ?_⟩
    show (((p.advance.drawStep.fetchStep b).moveScroll).updateSelection b).updateFlags = _
    rw [hmove, hfetch, hdraw]
    rfl
  · -- nothing happens on the other lines, nor in the first dot of a line
    have hdot : p.advance.beam.dot.toNat = 0 := by
      simp only [Beam.onVisibleLine, preRenderLine, Bool.or_eq_true, decide_eq_true_eq, beq_iff_eq,
        UInt16.lt_iff_toNat_lt, ← UInt16.toNat_inj, UInt16.reduceToNat] at hline
      omega
    refine ⟨p.scroll.v, p.tile, ?_⟩
    rw [if_neg hline, drawStep_hidden (by omega)]
    rfl

theorem updateSelection_frame (b : Board) (p : PictureUnit) :
    (p.updateSelection b).sprites = p.sprites ∧
      (p.updateSelection b).spriteZeroHit = p.spriteZeroHit := by
  unfold updateSelection
  split
  · split <;> exact ⟨rfl, rfl⟩
  · exact ⟨rfl, rfl⟩

theorem updateFlags_frame (p : PictureUnit) :
    p.updateFlags.sprites = p.sprites ∧ p.updateFlags.selection = p.selection := by
  unfold updateFlags
  split
  · split
    · exact ⟨rfl, rfl⟩
    split <;> exact ⟨rfl, rfl⟩
  · exact ⟨rfl, rfl⟩

/-- The flag of the first sprite is cleared in front of the picture. -/
theorem hit_cleared (hdot : p.beam.dot.toNat = 1) (hline : p.beam.line.toNat = 261) :
    p.updateFlags.spriteZeroHit = false := by
  have hdot : p.beam.dot = 1 := UInt16.toNat_inj.1 hdot
  have hline : p.beam.line = 261 := UInt16.toNat_inj.1 hline
  simp [updateFlags, hdot, hline, blankingLine, preRenderLine]

theorem hit_kept (h : ¬ (p.beam.dot.toNat = 1 ∧ p.beam.line.toNat = 261)) :
    p.updateFlags.spriteZeroHit = p.spriteZeroHit := by
  unfold updateFlags
  split
  · split
    · rfl
    split
    · rename_i hdot _ hline
      exact absurd ⟨congrArg UInt16.toNat (beq_iff_eq.1 hdot),
        congrArg UInt16.toNat (beq_iff_eq.1 hline)⟩ h
    · rfl
  · rfl

/-- The selection comes from neither the screen nor the background. -/
theorem selection_update (p : PictureUnit) (screen : Memory UInt32 61440) (hit : Bool)
    (tile : TileFetch) (scroll : Scroll) :
    ({ p with screen, spriteZeroHit := hit, tile, scroll }.updateSelection b).selection =
      (p.updateSelection b).selection := by
  unfold updateSelection
  simp only []
  split
  · split <;> rfl
  · rfl

/-- What a dot leaves behind, apart from the background. -/
structure Ticked (b : Board) (p q : PictureUnit) (screen : Memory UInt32 61440) (hit : Bool) :
    Prop where
  mask : q.mask = p.mask
  control : q.control = p.control
  palette : q.palette = p.palette
  sprites : q.sprites = p.sprites
  beam : q.beam = p.advance.beam
  screen : q.screen = screen
  selection : q.selection = (p.advance.updateSelection b).selection
  cleared : p.advance.beam.dot.toNat = 1 ∧ p.advance.beam.line.toNat = 261 →
    q.spriteZeroHit = false
  kept : ¬ (p.advance.beam.dot.toNat = 1 ∧ p.advance.beam.line.toNat = 261) →
    q.spriteZeroHit = hit

theorem tick_ticked {screen : Memory UInt32 61440} {hit : Bool}
    (hrendering : p.advance.rendering = true)
    (hplace : p.advance.beam.line.toNat < 240 ∨ p.advance.beam.line.toNat = 261 ∨
      p.advance.beam.dot.toNat = 0)
    (hdraw : p.advance.drawStep = { p.advance with screen, spriteZeroHit := hit }) :
    Ticked b p (p.tick b) screen hit := by
  obtain ⟨v, tile, htick⟩ := tick_shape (b := b) hrendering hplace
  rw [hdraw] at htick
  -- `q` has been drawn, and the selection and the flags come behind it
  obtain ⟨q, hq⟩ : ∃ q : PictureUnit, q = { p.advance with
      screen, spriteZeroHit := hit, tile, scroll := { p.scroll with v } } := ⟨_, rfl⟩
  rw [← hq] at htick
  have hview : (p.tick b).view = q.view := by
    rw [htick, view_updateFlags, view_updateSelection]
  have hbeam : q.beam = p.advance.beam := by rw [hq]
  have hselected : (q.updateSelection b).beam = p.advance.beam := by
    rw [beam_updateSelection, hbeam]
  obtain ⟨hflagsSprites, hflagsSelection⟩ := (q.updateSelection b).updateFlags_frame
  obtain ⟨hsprites, hkept⟩ := updateSelection_frame b q
  refine ⟨?_, ?_, ?_, ?_, ?_, ?_, ?_, ?_, ?_⟩
  · exact (congrArg View.mask hview).trans (by rw [view, hq]; rfl)
  · exact (congrArg View.control hview).trans (by rw [view, hq]; rfl)
  · exact (congrArg View.palette hview).trans (by rw [view, hq]; rfl)
  · rw [htick, hflagsSprites, hsprites, hq]
    rfl
  · exact (congrArg View.beam hview).trans hbeam
  · exact (congrArg View.screen hview).trans (by rw [view, hq])
  · rw [htick, hflagsSelection, hq]
    exact selection_update p.advance screen hit tile _
  · rintro ⟨hdot, hline⟩
    rw [htick, hit_cleared (hselected ▸ hdot) (hselected ▸ hline)]
  · intro hlater
    rw [htick, hit_kept (hselected ▸ hlater), hkept, hq]

/-- While something is shown, it is shown on. -/
theorem rendering_tick (hrendering : p.advance.rendering = true)
    (hplace : p.advance.beam.line.toNat < 240 ∨ p.advance.beam.line.toNat = 261 ∨
      p.advance.beam.dot.toNat = 0) : (p.tick b).rendering = true := by
  obtain ⟨screen, hit, hdraw⟩ := p.advance.drawStep_shape
  have hticked := tick_ticked (b := b) hrendering hplace hdraw
  rw [rendering, hticked.mask]
  exact hrendering

/-- The background of a dot depends on nothing but the background. -/
theorem abreast_tick (hrendering : p.advance.rendering = true)
    (hplace : p.advance.beam.line.toNat < 240 ∨ p.advance.beam.line.toNat = 261 ∨
      p.advance.beam.dot.toNat = 0) :
    Abreast (p.advance.fetchStep b).moveScroll (p.tick b) := by
  obtain ⟨screen, hit, hdraw⟩ := p.advance.drawStep_shape
  have hdrawn : Abreast p.advance p.advance.drawStep := by
    rw [hdraw]
    exact ⟨rfl, rfl, rfl, rfl, rfl, rfl⟩
  exact (hdrawn.fetchStep rfl fun _ => rfl).moveScroll.trans
    (Abreast.of_view (view_tick hrendering hplace))

end PictureUnit

namespace Abreast

variable {p q : PictureUnit} {b b' : Board}

/-- While both show something their beams move together. -/
theorem advance (h : Abreast p q) (hp : p.rendering = true) (hq : q.rendering = true) :
    Abreast p.advance q.advance := by
  refine ⟨h.control, h.scroll, ?_, h.tile, h.nametables, h.palette⟩
  rw [PictureUnit.advance, PictureUnit.advance, hp, hq, h.beam]

/-- **Backgrounds stay equal.** Neither the sprites nor what else is different in two
picture units comes into them. -/
theorem tick (h : Abreast p q) (hmirroring : b'.mirroring = b.mirroring)
    (hpattern : ∀ address, b'.readPattern address = b.readPattern address)
    (hp : p.rendering = true) (hq : q.rendering = true)
    (hplace : p.advance.beam.line.toNat < 240 ∨ p.advance.beam.line.toNat = 261 ∨
      p.advance.beam.dot.toNat = 0) :
    Abreast (p.tick b) (q.tick b') := by
  have hadvance := h.advance hp hq
  have hdot := (hadvance.fetchStep hmirroring hpattern).moveScroll
  exact ((PictureUnit.abreast_tick hp hplace).symm.trans hdot).trans
    (PictureUnit.abreast_tick hq (hadvance.beam ▸ hplace))

end Abreast

/-! ## Selection -/

/-- Which sprites are selected when the beam is at a place. -/
inductive Selecting (s : Scene) (selection : Selection) : (line dot : Nat) → Prop
  /-- Nothing is known before the first selection. -/
  | waiting {dot} : dot ≤ 256 → Selecting s selection 261 dot
  /-- The sprites of the next line have been selected. -/
  | ahead {line n dot} :
      Precedes line n → 257 ≤ dot → s.Holds selection n → Selecting s selection line dot
  /-- The sprites of this line are there. -/
  | drawing {line dot} :
      line ≤ 240 → dot ≤ 256 → s.Holds selection line → Selecting s selection line dot

namespace PictureUnit

variable {p : PictureUnit} {b : Board}

theorem updateSelection_idle (h : p.beam.dot.toNat ≠ 257) : p.updateSelection b = p := by
  have hdot : ¬ (p.beam.dot == 257) = true := fun heq =>
    h (congrArg UInt16.toNat (beq_iff_eq.1 heq))
  rw [updateSelection, if_neg hdot]

theorem updateSelection_visible (hdot : p.beam.dot.toNat = 257) (hline : p.beam.line.toNat < 240) :
    p.updateSelection b = p.selectSprites b := by
  have hdot : p.beam.dot = 257 := UInt16.toNat_inj.1 hdot
  have hline : p.beam.onVisibleLine = true := decide_eq_true (UInt16.lt_iff_toNat_lt.2 hline)
  rw [updateSelection, if_pos (beq_iff_eq.2 hdot), if_pos hline]

theorem updateSelection_hidden (hdot : p.beam.dot.toNat = 257) (hline : 240 ≤ p.beam.line.toNat) :
    p.updateSelection b = { p with selection := { p.selection with count := 0 } } := by
  have hdot : p.beam.dot = 257 := UInt16.toNat_inj.1 hdot
  have hline : ¬ p.beam.onVisibleLine = true := fun h =>
    absurd (UInt16.lt_iff_toNat_lt.1 (of_decide_eq_true h)) (Nat.not_lt.2 hline)
  rw [updateSelection, if_pos (beq_iff_eq.2 hdot), if_neg hline]

end PictureUnit

/-- In a visible dot the sprites are those of its line. -/
theorem Selecting.holds {s : Scene} {selection : Selection} {line dot : Nat}
    (h : Selecting s selection line dot) (hline : line < 240) (hdot : dot ≤ 256) :
    s.Holds selection line := by
  cases h with
  | drawing _ _ hholds => exact hholds
  | _ => omega

/-- The selection behind a dot. -/
theorem Selecting.dot {s : Scene} {p : PictureUnit} {b : Board} {line dot : Nat}
    (h : Selecting s p.selection line dot) (hshown : s.Shown p b)
    (hnext : Next line dot p.beam.line.toNat p.beam.dot.toNat)
    (hmore : line = 261 ∨ line < 240) :
    Selecting s (p.updateSelection b).selection p.beam.line.toNat p.beam.dot.toNat := by
  generalize hline' : p.beam.line.toNat = line' at hnext
  generalize hdot' : p.beam.dot.toNat = dot' at hnext
  cases h with
  | waiting hle =>
      cases hnext with
      | down hlt => omega
      | top hlow hhigh => omega
      | right hlt =>
          by_cases hedge : dot = 256
          · rw [PictureUnit.updateSelection_hidden (by omega) (by omega)]
            exact .ahead (.inl ⟨rfl, rfl⟩) (by omega) (s.holds_none rfl)
          · exact .waiting (by omega)
  | ahead hprecedes hlow hholds =>
      have hidle : dot' ≠ 257 := by cases hnext <;> omega
      rw [PictureUnit.updateSelection_idle (by omega)]
      unfold Precedes at hprecedes
      cases hnext with
      | right hlt => exact .ahead hprecedes (by omega) hholds
      | down hlt =>
          obtain ⟨rfl, -⟩ | ⟨hvisible, rfl⟩ := hprecedes
          · omega
          · exact .drawing (by omega) (by omega) hholds
      | top hlast hlast' =>
          obtain ⟨-, rfl⟩ | ⟨hvisible, -⟩ := hprecedes
          · exact .drawing (by omega) (by omega) hholds
          · omega
  | drawing hvisible hle hholds =>
      cases hnext with
      | down hlt => omega
      | top hlow hhigh => omega
      | right hlt =>
          by_cases hedge : dot = 256
          · rw [PictureUnit.updateSelection_visible (by omega) (by omega), ← hline']
            exact .ahead (.inr ⟨by omega, rfl⟩) (by omega) (hshown.selectSprites (by omega))
          · rw [PictureUnit.updateSelection_idle (by omega)]
            exact .drawing hvisible (by omega) hholds

/-! ## Drawing -/

/-- A solid pixel selects no backdrop cell, of which there are two copies. -/
theorem paletteCell_solid {entry : Nat} (hlt : entry < 32) (hsolid : entry % 4 ≠ 0) :
    paletteCell entry = entry := by
  simp only [paletteCell]
  rw [if_neg (by omega)]
  omega

namespace Composite

variable {c : Composite} {p : PictureUnit} {x y : Nat}

/-- The sprite pixel of a column is that of the sprite that shows. -/
theorem spritePixel?_eq (hc : c.Shows) (hp : c.Held p) (h : c.scene.Holds p.selection y)
    {column : UInt32} (hcolumn : column.toNat < 256) (left : Bool) :
    (p.spritePixel? left column).map Scene.seenSlot =
      (c.scene.winner column.toNat y).map (c.scene.seen column.toNat y) := by
  have hshown : p.spritePixel? left column = p.selection.pixel? column := by
    simp [PictureUnit.spritePixel?, hp.mask, hc.sprites, hc.spritesLeft]
  rw [hshown]
  exact h.pixel?_eq hcolumn

/-- The entry of a sprite in the palettes of the sprites. -/
theorem colour_sprite (hp : c.Held p) {i : Nat} {sprite : UInt8}
    (hvalue : c.scene.value i x y ≠ 0) (hsprite : sprite.toNat = c.scene.pixel i x y) :
    p.colour (sprite ||| 0x10) = c.palette.read (16 + c.scene.pixel i x y) := by
  have hlt := c.scene.pixel_lt i x y
  have hmod := c.scene.pixel_mod i x y
  have hentry : (sprite ||| 0x10).toNat = 16 + c.scene.pixel i x y := by
    rw [UInt8.toNat_or, hsprite, Nat.or_comm]
    exact (Nat.shiftLeft_add_eq_or_of_lt (i := 4) hlt 1).symm
  rw [PictureUnit.colour, hentry, paletteCell_solid (by omega) (by omega), hp.palette]

/-- The background, or the backdrop where it shows through. -/
theorem colour_background (hp : c.Held p)
    (hbackground : (p.tile.pixel p.scroll.fineX).toNat = c.background x y) :
    p.colour (if c.solid x y then p.tile.pixel p.scroll.fineX else 0) =
      c.palette.read (if c.solid x y then c.background x y else 0) := by
  have hlt : (p.tile.pixel p.scroll.fineX).toNat < 16 := by
    rw [TileFetch.pixel, Byte.toNat_and_low _ 4 rfl]
    exact Nat.mod_lt _ (by decide)
  rw [PictureUnit.colour, hp.palette]
  cases hsolid : c.solid x y with
  | false => rfl
  | true =>
      have hmod : c.background x y % 4 ≠ 0 := by simpa [solid] using hsolid
      simp only [if_true]
      rw [hbackground, paletteCell_solid (by omega) hmod]

/-- The flag is set by the slot of the first sprite. -/
theorem hits_eq {i : Nat} {slot : Slot} (hwinner : c.scene.winner x y = some i)
    (hindex : i = slot.index.toNat) :
    c.hits x y = (slot.index == 0 && decide (x < 255) && c.solid x y) := by
  have hfirst : (some i == some 0) = (slot.index == 0) := by
    rw [hindex, Bool.eq_iff_iff, beq_iff_eq, beq_iff_eq, Option.some_inj, ← UInt8.toNat_inj]
    rfl
  rw [hits, hwinner, hfirst, Bool.and_comm (decide _)]

theorem hits_none (hwinner : c.scene.winner x y = none) : c.hits x y = false := by
  simp [hits, hwinner]

/-- **A dot draws by the rule.** -/
theorem drawPixel_eq (hc : c.Shows) (hp : c.Held p) (hsprites : c.scene.Holds p.selection y)
    (hbackground : (p.tile.pixel p.scroll.fineX).toNat = c.background x y) (hx : x < 256)
    (hdot : p.beam.dot.toNat = x + 1) :
    p.drawPixel =
      { p with spriteZeroHit := p.spriteZeroHit || c.hits x y }.plot (c.colour x y) := by
  have hcolumn : (p.beam.dot.toUInt32 - 1).toNat = x := by
    rw [UInt32.toNat_sub, UInt16.toNat_toUInt32, hdot]
    simp only [UInt32.reduceToNat]
    omega
  have hpixel (left : Bool) : p.backgroundPixel left = p.tile.pixel p.scroll.fineX := by
    simp [PictureUnit.backgroundPixel, hp.mask, hc.background, hc.backgroundLeft]
  have hbits : (p.tile.pixel p.scroll.fineX &&& 0x03 != 0) = c.solid x y := by
    rw [solid, ← hbackground, Bool.eq_iff_iff, bne_iff_ne, bne_iff_ne]
    refine not_congr ?_
    rw [← UInt8.toNat_inj, Byte.toNat_and_low _ 2 rfl]
    rfl
  have hbehind := colour_background hp hbackground
  have hseen := spritePixel?_eq hc hp hsprites (hcolumn ▸ hx) (p.beam.dot.toUInt32 - 1 < 8)
  rw [hcolumn] at hseen
  simp only [PictureUnit.drawPixel, hpixel, hbits]
  cases hfound : p.spritePixel? (p.beam.dot.toUInt32 - 1 < 8) (p.beam.dot.toUInt32 - 1) with
  | none =>
      have hnone : c.scene.winner x y = none := by simpa [hfound] using hseen.symm
      simp only [colour, entry, hnone]
      rw [hits_none hnone, Bool.or_false, ← hbehind]
  | some found =>
      obtain ⟨slot, sprite⟩ := found
      obtain ⟨i, hwinner, hsame⟩ : ∃ i, c.scene.winner x y = some i ∧
          c.scene.seen x y i = Scene.seenSlot (slot, sprite) := by
        simpa [hfound] using hseen.symm
      simp only [Scene.seen, Scene.seenSlot, Prod.mk.injEq] at hsame
      obtain ⟨hindex, hpriority, hsprite⟩ := hsame
      have hfront := colour_sprite hp (c.scene.value_of_winner hwinner) hsprite.symm
      have hlast : decide (p.beam.dot.toUInt32 - 1 < 255) = decide (x < 255) := by
        refine decide_eq_decide.2 ?_
        rw [UInt32.lt_iff_toNat_lt, hcolumn]
        rfl
      simp only [colour, entry, hwinner, hpriority, hits_eq hwinner hindex, hlast]
      cases hsolid : c.solid x y with
      | false => simp [hfront]
      | true =>
          rw [hsolid] at hbehind
          simp only [if_true] at hbehind
          cases slot.behind with
          | false => simp [hfront]
          | true => simp [hbehind]

end Composite

end Famicom.Video
