import Famicom.Proofs.Video.Compositing

/-!
# Sprite evaluation

In dot 257 of a visible line the picture unit looks through sprite memory for the
sprites of the next line (`Scene.crossing`). It takes the first eight of them and packs
their rows, and it records that there are more. A dot in which nothing is shown does
neither (`tick_evaluates`).
-/

namespace Famicom.Video

open Cartridge

/-- The sprites and patterns of a picture unit and a board. -/
def sceneOf (p : PictureUnit) (board : Board) : Scene :=
  { sprites := p.sprites, tall := hasBits p.control 0x20, upper := hasBits p.control 0x08
    pattern := board.readPattern }

theorem shown_sceneOf (p : PictureUnit) (board : Board) : (sceneOf p board).Shown p board :=
  ⟨rfl, rfl, rfl, fun _ => rfl⟩

namespace Scene

variable (s : Scene) (i line : Nat)

/-- Whether a line is one of the lines from the coordinate of a sprite on, of which there
are as many as the sprite is high. -/
def crosses : Bool :=
  let top := (s.sprites.sprite i).y.toNat
  decide (top ≤ line ∧ line < top + s.height)

/-- All sprites that a line crosses, in the order of sprite memory. -/
def crossing : List Nat := (List.range 64).filter fun i => s.crosses i line

/-- What a line crosses is seen on the line below it. -/
theorem reaches_succ : s.reaches i (line + 1) = s.crosses i line := by
  refine decide_eq_decide.2 ?_
  rw [Nat.add_sub_cancel]
  exact and_iff_right (Nat.succ_pos line)

theorem selected_succ : s.selected (line + 1) = (s.crossing line).take 8 := by
  simp only [selected, crossing, reaches_succ]

end Scene

namespace PictureUnit

variable {p : PictureUnit} {b : Board}

/-- The flags change in the second dot of a line only. -/
theorem updateFlags_idle (h : p.beam.dot.toNat ≠ 1) : p.updateFlags = p := by
  have hdot : ¬ (p.beam.dot == 1) = true := fun heq =>
    h (congrArg UInt16.toNat (beq_iff_eq.1 heq))
  rw [updateFlags, if_neg hdot]

/-- The overflow flag is set by a ninth sprite, and stays if there is none. -/
theorem overflow_selectSprites (hline : p.beam.line.toNat < 240) :
    (p.selectSprites b).spriteOverflow =
      (p.spriteOverflow || decide (8 < ((sceneOf p b).crossing p.beam.line.toNat).length)) := by
  have hfound := (shown_sceneOf p b).reachingSprites_eq hline
  simp only [selectSprites, hfound, Scene.crossing, Scene.reaches_succ]
  rfl

/-- Behind a dot in which nothing is shown no sprites are selected. -/
theorem tick_blank (hrendering : p.rendering = false) (hdot : (p.tick b).beam.dot.toNat = 257) :
    (p.tick b).selection = p.selection ∧ (p.tick b).spriteOverflow = p.spriteOverflow := by
  have hblank : ¬ p.advance.rendering = true := ne_true_of_eq_false hrendering
  have hdrawn : p.advance.drawBackdrop.beam.dot.toNat ≠ 1 := by
    rw [beam_tick] at hdot
    rw [beam_drawBackdrop]
    show (p.beam.advance p.rendering).dot.toNat ≠ 1
    omega
  have htick : p.tick b = p.advance.drawBackdrop := by
    unfold tick
    simp only []
    rw [if_neg hblank, updateFlags_idle hdrawn]
  rw [htick, drawBackdrop]
  split <;> exact ⟨rfl, rfl⟩

/-- Behind a dot in which something is shown, the selection is the one of the line. -/
theorem tick_selects (hrendering : p.rendering = true) (hline : (p.tick b).beam.line.toNat < 240)
    (hdot : (p.tick b).beam.dot.toNat = 257) :
    (p.tick b).selection = (p.advance.selectSprites b).selection ∧
      (p.tick b).spriteOverflow = (p.advance.selectSprites b).spriteOverflow := by
  rw [beam_tick] at hline hdot
  obtain ⟨screen, hit, hdraw⟩ := p.advance.drawStep_shape
  obtain ⟨v, tile, htick⟩ := tick_shape (p := p) (b := b) hrendering (.inl hline)
  -- neither the drawing nor the fetching before it comes into the selection
  have hidle (q : PictureUnit) (hq : q.beam = p.advance.beam) :
      (q.updateSelection b).updateFlags = q.selectSprites b := by
    have hselected : (q.updateSelection b).beam.dot.toNat ≠ 1 := by
      rw [beam_updateSelection, hq]
      show (p.beam.advance p.rendering).dot.toNat ≠ 1
      omega
    rw [updateFlags_idle hselected, updateSelection_visible (hq ▸ hdot) (hq ▸ hline)]
  have hdrawn : ({ p.advance.drawStep with
      tile, scroll := { p.scroll with v } } : PictureUnit).beam = p.advance.beam :=
    p.advance.beam_drawStep
  rw [htick, hidle _ hdrawn, hdraw]
  exact ⟨rfl, rfl⟩

end PictureUnit

/-- **Sprite evaluation.** When the beam comes to dot 257 of a visible line while something
is shown,

* as many slots are in use as sprites cross the line, but no more than eight,
* the slots hold the first of these sprites in the order of sprite memory: the number, the
  column and the priority of the sprite, and the packed pixels of the row that comes to
  lie on the next line,
* the overflow flag is set if more than eight sprites cross the line, and otherwise it
  stays as it is.

While nothing is shown, all of this stays as it is. -/
theorem tick_evaluates (p : PictureUnit) (b : Board) (hline : (p.tick b).beam.line.toNat < 240)
    (hdot : (p.tick b).beam.dot.toNat = 257) :
    let line := (p.tick b).beam.line.toNat
    let found := (sceneOf p b).crossing line
    (p.rendering = true →
      (p.tick b).selection.count.toNat = min 8 found.length ∧
      (∀ k i, k < 8 → found[k]? = some i →
        (sceneOf p b).Depicts i (line + 1) ((p.tick b).selection.slots.read k)) ∧
      (p.tick b).spriteOverflow = (p.spriteOverflow || decide (8 < found.length))) ∧
    (p.rendering = false →
      (p.tick b).selection = p.selection ∧ (p.tick b).spriteOverflow = p.spriteOverflow) := by
  refine ⟨fun hrendering => ?_, fun hrendering => p.tick_blank hrendering hdot⟩
  obtain ⟨hselection, hoverflow⟩ := p.tick_selects hrendering hline hdot
  have hbeam : (p.tick b).beam = p.advance.beam := p.beam_tick b
  rw [hbeam] at hline ⊢
  have hholds : (sceneOf p b).Holds (p.advance.selectSprites b).selection _ :=
    (shown_sceneOf p.advance b).selectSprites hline
  rw [hselection, hoverflow, PictureUnit.overflow_selectSprites hline]
  refine ⟨?_, fun k i hk hi => hholds.slots k i ?_, rfl⟩
  · rw [hholds.count, Scene.selected_succ, List.length_take]
  · rw [Scene.selected_succ, List.getElem?_take_of_lt hk]
    exact hi

/-- Sixty-four tall sprites in the same place, turned around and upside down, with line 200
in the upper one of their two tiles: the eighth slot shows the first row of the lower
tile. -/
theorem tick_evaluates_flipped :
    let p : PictureUnit := { PictureUnit.powerOn with
      mask := 0x10
      control := 0x20
      beam := { line := 200, dot := 256, frame := 0, odd := true }
      sprites := .filled 0xC1 }
    let b := Board.ofCartridge (.minimal .linear)
    let s := sceneOf p b
    (p.tick b).beam.line.toNat = 200 ∧ (p.tick b).beam.dot.toNat = 257 ∧ p.rendering = true ∧
      (p.tick b).selection.count.toNat = 8 ∧ (p.tick b).spriteOverflow = true ∧
      s.row 7 201 = 8 ∧ s.Depicts 7 201 ((p.tick b).selection.slots.read 7) := by
  intro p b s
  have hline : (p.tick b).beam.line.toNat = 200 := by
    rw [PictureUnit.beam_tick]
    decide +kernel
  have hdot : (p.tick b).beam.dot.toNat = 257 := by
    rw [PictureUnit.beam_tick]
    decide +kernel
  have hrendering : p.rendering = true := by decide +kernel
  have hfound : s.crossing 200 = List.range 64 := by decide +kernel
  obtain ⟨hcount, hslots, hoverflow⟩ := (tick_evaluates p b (by omega) hdot).1 hrendering
  rw [hline] at hcount hslots hoverflow
  rw [hfound] at hcount hslots hoverflow
  exact ⟨hline, hdot, hrendering, hcount, hoverflow, by decide +kernel, hslots 7 7 (by decide) rfl⟩

end Famicom.Video
