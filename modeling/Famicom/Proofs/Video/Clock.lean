import Famicom.Proofs.Video.Frame

/-!
# The beam as a clock

The beam goes on by one dot with every tick, and nothing else moves it but a reset.
Counted from the upper left corner of the first frame, with 89342 dots in every
frame, its place is a time (`Beam.AtTime`). A tick adds one to it, and one more
where a dot of the line before the picture is left out (`Beam.AtTime.advance`). Frame and
place are quotient and remainder of the time (`Beam.AtTime.frame_place`).
-/

namespace Famicom.Video

open Cartridge

/-! ## What does not move the beam -/

namespace PictureUnit

variable (p : PictureUnit) (b : Board)

theorem beam_takeNmi : p.takeNmi.2.beam = p.beam := congrArg View.beam p.view_takeNmi

/-- A read of a register neither moves the beam nor changes the screen. -/
theorem readRegister_frame (register : UInt16) :
    (p.readRegister b register).2.beam = p.beam ∧
      (p.readRegister b register).2.screen = p.screen := by
  unfold readRegister
  split
  · exact ⟨rfl, rfl⟩
  · exact ⟨rfl, rfl⟩
  · unfold readData
    simp only []
    split <;> exact ⟨rfl, rfl⟩
  · exact ⟨rfl, rfl⟩

theorem store_frame (address : UInt16) (value : UInt8) :
    (p.store b address value).1.beam = p.beam ∧
      (p.store b address value).1.screen = p.screen := by
  unfold store
  simp only []
  split
  · exact ⟨rfl, rfl⟩
  split
  · exact ⟨rfl, rfl⟩
  · exact ⟨rfl, rfl⟩

/-- Nor does a write. -/
theorem writeRegister_frame (register : UInt16) (value : UInt8) :
    (p.writeRegister b register value).1.beam = p.beam ∧
      (p.writeRegister b register value).1.screen = p.screen := by
  unfold writeRegister
  simp only []
  split
  case h_7 => exact store_frame { p with lastWrite := value } b p.scroll.v value
  all_goals exact ⟨rfl, rfl⟩

theorem beam_readRegister (register : UInt16) : (p.readRegister b register).2.beam = p.beam :=
  (p.readRegister_frame b register).1

theorem beam_writeRegister (register : UInt16) (value : UInt8) :
    (p.writeRegister b register value).1.beam = p.beam :=
  (p.writeRegister_frame b register value).1

theorem beam_drawPixel : p.drawPixel.beam = p.beam := by
  unfold drawPixel
  simp only []
  split
  · rfl
  split
  · rfl
  · rfl

theorem beam_drawBackdrop : p.drawBackdrop.beam = p.beam := by
  unfold drawBackdrop
  split <;> rfl

theorem beam_moveScroll : p.moveScroll.beam = p.beam := by
  obtain ⟨v, h⟩ := Still.moveScroll_shape p
  rw [h]

theorem beam_updateSelection : (p.updateSelection b).beam = p.beam :=
  congrArg View.beam (view_updateSelection b p)

theorem beam_drawStep : p.drawStep.beam = p.beam := by
  unfold drawStep
  split
  · exact beam_drawPixel p
  · rfl

theorem beam_fetchStep : (p.fetchStep b).beam = p.beam := by
  obtain ⟨v, tile, h⟩ := Still.fetchStep_shape p b
  rw [h]

theorem beam_render : (p.render b).beam = p.beam := by
  unfold render
  split
  · show (((p.drawStep.fetchStep b).moveScroll).updateSelection b).beam = p.beam
    rw [beam_updateSelection, beam_moveScroll, beam_fetchStep, beam_drawStep]
  · exact beam_updateSelection p b

/-- A tick moves the beam by one dot, whatever is drawn and fetched in it. -/
theorem beam_tick : (p.tick b).beam = p.beam.advance p.rendering := by
  have hflags (q : PictureUnit) : q.updateFlags.beam = q.beam :=
    congrArg View.beam (view_updateFlags q)
  unfold tick
  simp only [hflags]
  split
  · exact beam_render p.advance b
  · exact beam_drawBackdrop p.advance

end PictureUnit

/-! ## Time -/

namespace Beam

/-- Dots in a frame that leaves none out. -/
def dotsPerFrame : Nat := 89342

/-- The beam is where it is at time `t`. The count of frames is a word of 64 bits and
wraps around; the time does not. -/
structure AtTime (b : Beam) (t : Nat) : Prop where
  onPicture : b.OnPicture
  time : ∃ frames : Nat, b.frame = .ofNat frames ∧
    dotsPerFrame * frames + 341 * b.line.toNat + b.dot.toNat = t

/-- Between two places of the beam a dot was left out: the beam has gone from the
last dot but one of the line before the picture to the next frame. -/
def skips (b b' : Beam) : Bool := b.line == preRenderLine && b.dot == 339 && b'.line == 0

variable {b b' : Beam} {t : Nat}

theorem frame_succ {frames : Nat} (h : b.frame = .ofNat frames) :
    b.frame + 1 = .ofNat (frames + 1) := by
  rw [h, ← UInt64.toNat_inj, UInt64.toNat_add]
  simp only [UInt64.toNat_ofNat', UInt64.reduceToNat]
  omega

/-- The first dot of the next frame follows the last one of this frame, and also the
last but one if that is left out. -/
theorem AtTime.nextFrame (h : b.AtTime t) (hline : b.line.toNat = 261) (short : Nat)
    (hdot : b.dot.toNat + short = 340) : b.nextFrame.AtTime (t + 1 + short) := by
  obtain ⟨-, frames, hframe, htime⟩ := h
  refine ⟨⟨UInt16.zero_le, UInt16.zero_le⟩, frames + 1, frame_succ hframe, ?_⟩
  show dotsPerFrame * (frames + 1) + 341 * 0 + 0 = t + 1 + short
  simp only [dotsPerFrame] at htime ⊢
  omega

theorem AtTime.right (h : b.AtTime t) (hdot : b.dot.toNat < 340) :
    AtTime { b with dot := b.dot + 1 } (t + 1) := by
  obtain ⟨⟨hline, -⟩, frames, hframe, htime⟩ := h
  have hnext : (b.dot + 1).toNat = b.dot.toNat + 1 := Word.toNat_succ (by omega)
  refine ⟨⟨hline, ?_⟩, frames, hframe, ?_⟩
  · rw [UInt16.le_iff_toNat_le, hnext]
    exact hdot
  · simp only [hnext]
    omega

theorem AtTime.down (h : b.AtTime t) (hdot : b.dot.toNat = 340) (hline : b.line.toNat < 261) :
    AtTime { b with dot := 0, line := b.line + 1 } (t + 1) := by
  obtain ⟨-, frames, hframe, htime⟩ := h
  have hnext : (b.line + 1).toNat = b.line.toNat + 1 := Word.toNat_succ (by omega)
  refine ⟨⟨?_, UInt16.zero_le⟩, frames, hframe, ?_⟩
  · rw [UInt16.le_iff_toNat_le, hnext]
    exact hline
  · simp only [hnext, UInt16.reduceToNat]
    omega

/-- **A tick takes the time of a dot**, and that of a second one if a dot is left
out. -/
theorem AtTime.advance (h : b.AtTime t) (rendering : Bool) :
    (b.advance rendering).AtTime (t + 1 + (b.skips (b.advance rendering)).toNat) := by
  have hplace := h.onPicture
  simp only [OnPicture, preRenderLine, lastDot, UInt16.le_iff_toNat_le, UInt16.reduceToNat]
    at hplace
  have hpre : b.line = preRenderLine ↔ b.line.toNat = 261 := UInt16.toNat_inj.symm
  have hlate : b.dot = 339 ↔ b.dot.toNat = 339 := UInt16.toNat_inj.symm
  unfold Beam.advance
  split
  · -- the frame ends one dot early
    rename_i hshort
    simp only [Bool.and_eq_true, beq_iff_eq] at hshort
    obtain ⟨⟨-, hline⟩, hdot⟩ := hshort
    have hskips : b.skips b.nextFrame = true := by
      simp only [skips, hline, hdot, Beam.nextFrame, beq_self_eq_true, Bool.and_self]
    rw [hskips]
    exact h.nextFrame (hpre.1 hline) 1 (by rw [hlate.1 hdot])
  split
  · rename_i hdot
    have hskips : b.skips { b with dot := b.dot + 1 } = false := by
      -- the beam stays on its line, which is not the first one
      simp only [skips, Bool.and_eq_false_iff, beq_eq_false_iff_ne]
      by_cases hline : b.line = preRenderLine
      · exact .inr (hline ▸ by decide)
      · exact .inl (.inl hline)
    rw [hskips]
    exact h.right (UInt16.lt_iff_toNat_lt.1 hdot)
  have hdot : b.dot.toNat = 340 := by
    rename_i hlast
    have hnot : ¬ b.dot.toNat < 340 := fun hlt => hlast (UInt16.lt_iff_toNat_lt.2 hlt)
    omega
  have hskips (b' : Beam) : b.skips b' = false := by
    have hne : b.dot ≠ 339 := fun heq => by
      rw [hlate] at heq
      omega
    simp [skips, hne]
  rw [hskips]
  split
  · rename_i hline
    exact h.down hdot (UInt16.lt_iff_toNat_lt.1 hline)
  · rename_i hline
    have hnot : ¬ b.line.toNat < 261 := fun hlt => hline (UInt16.lt_iff_toNat_lt.2 hlt)
    exact h.nextFrame (by omega) 0 hdot

/-- As long as the time does not reach 2^64 frames, the count of frames is exact. -/
theorem AtTime.frame_eq (h : b.AtTime t) (ht : t < dotsPerFrame * 2 ^ 64) :
    dotsPerFrame * b.frame.toNat + 341 * b.line.toNat + b.dot.toNat = t := by
  obtain ⟨-, frames, hframe, htime⟩ := h
  have hlt : frames < 2 ^ 64 := by
    simp only [dotsPerFrame] at ht htime
    omega
  rw [hframe, UInt64.toNat_ofNat_of_lt' hlt]
  exact htime

/-- Whole frames have passed, and the rest is the place in the picture. -/
theorem AtTime.frame_place (h : b.AtTime t) :
    b.frame = .ofNat (t / dotsPerFrame) ∧
      341 * b.line.toNat + b.dot.toNat = t % dotsPerFrame := by
  obtain ⟨⟨hline, hdot⟩, frames, hframe, htime⟩ := h
  simp only [preRenderLine, lastDot, UInt16.le_iff_toNat_le, UInt16.reduceToNat] at hline hdot
  simp only [dotsPerFrame] at htime ⊢
  have hquotient : t / 89342 = frames := by omega
  refine ⟨by rw [hquotient, hframe], by omega⟩

/-- A dot is left out at one place only. -/
theorem AtTime.of_skips (h : b.AtTime t) (hskips : b.skips b' = true) :
    t % dotsPerFrame = 89340 := by
  simp only [skips, Bool.and_eq_true, beq_iff_eq] at hskips
  obtain ⟨⟨hline, hdot⟩, -⟩ := hskips
  rw [← h.frame_place.2, hline, hdot]
  rfl

/-- Every place of the picture has its time. -/
theorem OnPicture.atTime (h : b.OnPicture) :
    b.AtTime (dotsPerFrame * b.frame.toNat + 341 * b.line.toNat + b.dot.toNat) :=
  ⟨h, b.frame.toNat, UInt64.ofNat_toNat.symm, rfl⟩

end Beam

end Famicom.Video
