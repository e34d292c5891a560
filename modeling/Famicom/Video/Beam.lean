/-!
# The beam

The picture is drawn dot by dot, 341 dots on each of 262 lines. Lines 0 to 239
are visible, line 240 is idle, vertical blanking lasts from line 241 to 260, and
line 261 prepares the next frame. While rendering, every other frame is one dot
short.
-/

namespace Famicom.Video

def screenWidth : Nat := 256
def screenHeight : Nat := 240
/-- The line that prepares the next frame. -/
def preRenderLine : UInt16 := 261
/-- The first line of vertical blanking. -/
def blankingLine : UInt16 := 241
def lastDot : UInt16 := 340

structure Beam where
  line : UInt16
  dot : UInt16
  frame : UInt64
  /-- Whether this frame may be a dot short. -/
  odd : Bool
deriving DecidableEq, Repr

namespace Beam

@[inline] def nextFrame (b : Beam) : Beam :=
  { line := 0, dot := 0, frame := b.frame + 1, odd := !b.odd }

@[inline] def advance (rendering : Bool) (b : Beam) : Beam :=
  if rendering && b.odd && b.line == preRenderLine && b.dot == 339 then b.nextFrame
  else if b.dot < lastDot then { b with dot := b.dot + 1 }
  else if b.line < preRenderLine then { b with dot := 0, line := b.line + 1 }
  else b.nextFrame

def OnPicture (b : Beam) : Prop := b.line ≤ preRenderLine ∧ b.dot ≤ lastDot

/-- The beam never leaves the picture. -/
theorem OnPicture.advance {b : Beam} (h : b.OnPicture) (rendering : Bool) :
    (b.advance rendering).OnPicture := by
  obtain ⟨hl, hd⟩ := h
  simp only [preRenderLine, lastDot, UInt16.le_iff_toNat_le, UInt16.reduceToNat] at hl hd
  unfold Beam.advance
  split
  · simp [OnPicture, nextFrame, preRenderLine, lastDot]
  split
  · rename_i _ h
    simp only [OnPicture, lastDot, preRenderLine, UInt16.lt_iff_toNat_lt,
      UInt16.le_iff_toNat_le, UInt16.reduceToNat, UInt16.toNat_add] at h ⊢
    omega
  split
  · rename_i _ _ h
    simp only [OnPicture, lastDot, preRenderLine, UInt16.lt_iff_toNat_lt,
      UInt16.le_iff_toNat_le, UInt16.reduceToNat, UInt16.toNat_add] at h ⊢
    omega
  · simp [OnPicture, nextFrame, preRenderLine, lastDot]

@[inline] def onVisibleLine (b : Beam) : Bool := b.line < 240

@[inline] def onVisibleDot (b : Beam) : Bool := 1 ≤ b.dot && b.dot ≤ 256

/-- The visible dots of the visible lines are the points of the screen. -/
theorem visible_iff {b : Beam} :
    (b.onVisibleLine && b.onVisibleDot) = true ↔
      b.line.toNat < 240 ∧ 1 ≤ b.dot.toNat ∧ b.dot.toNat ≤ 256 := by
  simp [onVisibleLine, onVisibleDot, UInt16.le_iff_toNat_le, UInt16.lt_iff_toNat_lt]

@[inline] def onFetchDot (b : Beam) : Bool := b.onVisibleDot || (321 ≤ b.dot && b.dot ≤ 336)

end Beam

end Famicom.Video
