import Famicom.Proofs.Video.Compositing

/-!
# Every pixel is drawn once

There are two ways to draw: while something is shown a dot draws background and
sprites, and while nothing is shown it draws the backdrop. The processor may change
from one to the other between any two dots. Whatever it does,

* **dots** — a dot that comes to a visible place draws the pixel of that place, with
  full alpha, and any other dot draws nothing (`draws_visible`, `spares_hidden`);
* **places** — from one upper left corner to the next the beam comes to every visible
  place once (`Script.exists_spans`).

So every pixel of a frame is drawn exactly once (`drawn_once`).
-/

namespace Famicom.Video

open Cartridge

/-! ## Light -/

/-- Every light has full alpha. -/
theorem component_light (colour : UInt8) : component (light colour) 24 = 0xFF := by
  have table : ∀ i : Fin 64, component lights[i] 24 = 0xFF := by decide +kernel
  exact table ⟨colour.toNat % 64, Nat.mod_lt _ (by decide)⟩

/-- Full alpha stays, whatever else is added. -/
theorem component_solidBlack (argb : UInt32) : component (solidBlack ||| argb) 24 = 0xFF := by
  have habsorb (a x : UInt32) : (a ||| x) &&& a = a := by
    apply UInt32.toBitVec_inj.1
    ext i
    simp only [UInt32.toBitVec_and, UInt32.toBitVec_or, BitVec.getElem_and, BitVec.getElem_or]
    cases a.toBitVec[i] <;> simp
  rw [component, UInt32.shiftRight_or]
  exact habsorb 0xFF (argb >>> 24)

/-- Grey scale and emphasis keep full alpha. -/
theorem component_shade (mask colour : UInt8) : component (shade mask colour) 24 = 0xFF := by
  unfold shade
  simp only []
  split
  · exact component_light _
  · rw [UInt32.or_assoc, UInt32.or_assoc]
    exact component_solidBlack _

/-! ## Dots -/

namespace PictureUnit

/-- The next dot puts a light into a cell of the screen and leaves the other cells
alone, whatever is on the screen. -/
def Draws (p : PictureUnit) (b : Board) (cell : Nat) (light : UInt32) : Prop :=
  ∀ screen, ({ p with screen }.tick b).screen = screen.write cell light

/-- The next dot leaves the screen alone, whatever is on it. -/
def Spares (p : PictureUnit) (b : Board) : Prop :=
  ∀ screen, ({ p with screen }.tick b).screen = screen

variable {p : PictureUnit} {b : Board} {cell cell' : Nat} {light light' : UInt32}

/-- A light is missing on some screen. -/
theorem exists_screen_without (light : UInt32) :
    ∃ screen : Memory UInt32 61440, ∀ cell, screen.read cell ≠ light := by
  refine ⟨.filled (light + 1), fun cell h => ?_⟩
  rw [Memory.read_filled, ← UInt32.toNat_inj, UInt32.toNat_add] at h
  have hlt := light.toNat_lt
  simp only [UInt32.reduceToNat] at h
  omega

/-- A dot draws one cell at most. -/
theorem Draws.cell_eq (h : p.Draws b cell light) (h' : p.Draws b cell' light')
    (hcell : cell < 61440) (hcell' : cell' < 61440) : cell' = cell := by
  -- on a screen without the light, the other write would have to bring it
  obtain ⟨screen, hwithout⟩ := exists_screen_without light
  have hread : (screen.write cell' light').read cell = light := by
    rw [← h' screen, h screen, Memory.read_write, if_pos rfl]
  rw [Memory.read_write, Nat.mod_eq_of_lt hcell, Nat.mod_eq_of_lt hcell'] at hread
  by_cases hsame : cell' = cell
  · exact hsame
  · rw [if_neg hsame] at hread
    exact absurd hread (hwithout cell)

theorem Spares.not_draws (h : p.Spares b) : ¬ p.Draws b cell light := by
  intro hdraws
  obtain ⟨screen, hwithout⟩ := exists_screen_without light
  have hread : (screen.write cell light).read cell = light := by
    rw [Memory.read_write, if_pos rfl]
  rw [← hdraws screen, h screen] at hread
  exact hwithout cell hread

/-- What is drawn is on the screen behind the dot. -/
theorem Draws.read (h : p.Draws b cell light) : (p.tick b).screen.read cell = light := by
  have hscreen : (p.tick b).screen = p.screen.write cell light := h p.screen
  rw [hscreen, Memory.read_write, if_pos rfl]

theorem Draws.read_other (h : p.Draws b cell' light') (hcell : cell < 61440)
    (hcell' : cell' < 61440) (hne : cell' ≠ cell) :
    (p.tick b).screen.read cell = p.screen.read cell := by
  have hscreen : (p.tick b).screen = p.screen.write cell' light' := h p.screen
  rw [hscreen, Memory.read_write, Nat.mod_eq_of_lt hcell, Nat.mod_eq_of_lt hcell', if_neg hne]

variable (p b)

/-- Of all that belongs to a dot only the drawing changes the screen. -/
theorem screen_render : (p.render b).screen = p.drawStep.screen := by
  have hselection (q : PictureUnit) : (q.updateSelection b).screen = q.screen :=
    congrArg View.screen (view_updateSelection b q)
  unfold render
  split
  · obtain ⟨v, tile, hfetch⟩ := Still.fetchStep_shape p.drawStep b
    obtain ⟨v', hmove⟩ := Still.moveScroll_shape (p.drawStep.fetchStep b)
    show ((p.drawStep.fetchStep b).moveScroll.updateSelection b).screen = _
    rw [hselection, hmove, hfetch]
  · rename_i hline
    have hhidden : ¬ (p.beam.onVisibleLine && p.beam.onVisibleDot) = true := fun h =>
      hline (Bool.or_eq_true_iff.2 (.inl (Bool.and_eq_true_iff.1 h).1))
    rw [drawStep, if_neg hhidden]
    exact hselection p

/-- The palette entry that a visible dot shows while something is shown. The screen has no
part in it. -/
def entry : UInt8 :=
  let x := p.beam.dot.toUInt32 - 1
  let background := p.backgroundPixel (x < 8)
  let solid := background &&& 0x03 != 0
  match p.spritePixel? (x < 8) x with
  | none => if solid then background else 0
  | some (slot, sprite) => if solid && slot.behind then background else sprite ||| 0x10

theorem screen_drawPixel :
    p.drawPixel.screen =
      p.screen.write (p.beam.line.toNat * 256 + (p.beam.dot.toNat - 1))
        (shade p.mask (p.colour p.entry)) := by
  simp only [drawPixel, entry, plot, screenWidth]
  cases p.spritePixel? (p.beam.dot.toUInt32 - 1 < 8) (p.beam.dot.toUInt32 - 1) with
  | none => rfl
  | some found =>
      obtain ⟨slot, sprite⟩ := found
      cases p.backgroundPixel (p.beam.dot.toUInt32 - 1 < 8) &&& 0x03 != 0 with
      | false => rfl
      | true => rfl

/-- The colour that the next dot shows at a visible place. -/
def nextColour : UInt8 :=
  if p.rendering then p.advance.colour p.advance.entry else p.palette.read 0

/-- What a dot does to the screen, be something shown or not. -/
theorem screen_tick :
    (p.tick b).screen =
      let beam := p.beam.advance p.rendering
      if beam.line.toNat < 240 ∧ 1 ≤ beam.dot.toNat ∧ beam.dot.toNat ≤ 256 then
        p.screen.write (beam.line.toNat * 256 + (beam.dot.toNat - 1)) (shade p.mask p.nextColour)
      else p.screen := by
  have hflags (q : PictureUnit) : q.updateFlags.screen = q.screen :=
    congrArg View.screen (view_updateFlags q)
  have hbeam : p.advance.beam = p.beam.advance p.rendering := rfl
  have hrendering : p.advance.rendering = p.rendering := rfl
  simp only [tick, hflags, hrendering, nextColour, ← hbeam]
  cases p.rendering with
  | true =>
      simp only [if_true, screen_render]
      split
      · rename_i hvisible
        rw [drawStep_visible hvisible.1 hvisible.2, screen_drawPixel]
        rfl
      · rename_i hhidden
        rw [drawStep_hidden hhidden]
        rfl
  | false =>
      simp only [Bool.false_eq_true, if_false]
      split
      · rename_i hvisible
        rw [drawBackdrop, if_pos (Beam.visible_iff.2 hvisible)]
        rfl
      · rename_i hhidden
        rw [drawBackdrop, if_neg fun hvisible => hhidden (Beam.visible_iff.1 hvisible)]
        rfl

variable {p b}

/-- **A dot that comes to a visible place draws the pixel of that place.** -/
theorem draws_visible {x y : Nat} (hx : x < 256) (hy : y < 240)
    (hline : (p.tick b).beam.line.toNat = y) (hdot : (p.tick b).beam.dot.toNat = x + 1) :
    ∃ light, component light 24 = 0xFF ∧ p.Draws b (256 * y + x) light := by
  rw [beam_tick] at hline hdot
  have hvisible : (p.beam.advance p.rendering).line.toNat < 240 ∧
      1 ≤ (p.beam.advance p.rendering).dot.toNat ∧
      (p.beam.advance p.rendering).dot.toNat ≤ 256 := by omega
  refine ⟨_, component_shade p.mask p.nextColour, fun screen => ?_⟩
  have hscreen := (screen_tick { p with screen } b).trans (if_pos hvisible)
  have hcell : (p.beam.advance p.rendering).line.toNat * 256 +
      ((p.beam.advance p.rendering).dot.toNat - 1) = 256 * y + x := by omega
  rw [← hcell]
  exact hscreen

/-- **A dot that comes to any other place draws nothing.** -/
theorem spares_hidden
    (h : ∀ y < 240, ∀ x < 256,
      ¬ ((p.tick b).beam.line.toNat = y ∧ (p.tick b).beam.dot.toNat = x + 1)) : p.Spares b := by
  rw [beam_tick] at h
  intro screen
  refine (screen_tick { p with screen } b).trans (if_neg ?_)
  rintro ⟨hline, hlow, hhigh⟩
  exact h _ hline _ (by omega) ⟨rfl, (Nat.sub_add_cancel hlow).symm⟩

end PictureUnit

/-! ## Frames -/

/-- What the processor does with a picture unit between two dots, with the board that is
there at the moment. -/
inductive Script.Access where
  | read (board : Board) (register : UInt16)
  | write (board : Board) (register : UInt16) (value : UInt8)
  | writeSprite (address value : UInt8)
  | takeNmi

/-- What goes on around a picture unit: the board of every dot, and the accesses in front of
it. -/
structure Script where
  board : Nat → Board
  accesses : Nat → List Script.Access

namespace Script

open PictureUnit Beam

/-- The picture unit behind an access. -/
def Access.apply (p : PictureUnit) : Access → PictureUnit
  | .read board register => (p.readRegister board register).2
  | .write board register value => (p.writeRegister board register value).1
  | .writeSprite address value => p.writeSprite address value
  | .takeNmi => p.takeNmi.2

/-- No access moves the beam or changes the screen. -/
theorem Access.apply_frame (a : Access) (p : PictureUnit) :
    (a.apply p).beam = p.beam ∧ (a.apply p).screen = p.screen := by
  cases a with
  | read board register => exact p.readRegister_frame board register
  | write board register value => exact p.writeRegister_frame board register value
  | writeSprite address value => exact ⟨rfl, rfl⟩
  | takeNmi => exact ⟨p.beam_takeNmi, congrArg View.screen p.view_takeNmi⟩

theorem applyAll_frame (accesses : List Access) (p : PictureUnit) :
    (accesses.foldl (fun q a => a.apply q) p).beam = p.beam ∧
      (accesses.foldl (fun q a => a.apply q) p).screen = p.screen := by
  induction accesses generalizing p with
  | nil => exact ⟨rfl, rfl⟩
  | cons a rest ih =>
      obtain ⟨hbeam, hscreen⟩ := ih (a.apply p)
      obtain ⟨hbeam', hscreen'⟩ := a.apply_frame p
      exact ⟨hbeam.trans hbeam', hscreen.trans hscreen'⟩

variable (s : Script) (p : PictureUnit)

/-- The picture unit in front of dot `k`, with the accesses behind it. -/
def ready (q : PictureUnit) (k : Nat) : PictureUnit :=
  (s.accesses k).foldl (fun q a => a.apply q) q

/-- The picture unit behind `k` dots. -/
def behind : Nat → PictureUnit
  | 0 => p
  | k + 1 => (s.ready (behind k) k).tick (s.board k)

/-- The picture unit that dot `k` finds. -/
def before (k : Nat) : PictureUnit := s.ready (s.behind p k) k

/-- Dot `k` leads the beam to a place. -/
def ComesTo (k line dot : Nat) : Prop :=
  (s.behind p (k + 1)).beam.line.toNat = line ∧ (s.behind p (k + 1)).beam.dot.toNat = dot

variable {s p} {t k : Nat}

theorem beam_before : (s.before p k).beam = (s.behind p k).beam := (applyAll_frame _ _).1

theorem screen_before : (s.before p k).screen = (s.behind p k).screen := (applyAll_frame _ _).2

theorem behind_succ : s.behind p (k + 1) = (s.before p k).tick (s.board k) := rfl

/-- A dot takes its time, and that of a second one where one is left out. -/
theorem atTime_succ (h : (s.behind p k).beam.AtTime t) :
    (s.behind p (k + 1)).beam.AtTime
      (t + 1 + ((s.behind p k).beam.skips (s.behind p (k + 1)).beam).toNat) := by
  rw [behind_succ, beam_tick, beam_before]
  exact h.advance (s.before p k).rendering

/-- Where it is not the last dot but one of the frame that comes next, none is left out. -/
theorem atTime_next (h : (s.behind p k).beam.AtTime t) (ht : t % dotsPerFrame ≠ 89340) :
    (s.behind p (k + 1)).beam.AtTime (t + 1) := by
  have hskips : (s.behind p k).beam.skips (s.behind p (k + 1)).beam = false :=
    Bool.eq_false_iff.2 fun hskips => ht (h.of_skips hskips)
  have hnext := atTime_succ h
  rwa [hskips] at hnext

/-- From the beginning of a frame on, one dot follows the other. -/
theorem atTime_behind (h : p.beam.AtTime t) (ht : t % dotsPerFrame = 0) (hk : k ≤ 89340) :
    (s.behind p k).beam.AtTime (t + k) := by
  induction k with
  | zero => exact h
  | succ k ih =>
      have hearly : (t + k) % dotsPerFrame ≠ 89340 := by
        simp only [dotsPerFrame] at ht ⊢
        omega
      exact atTime_next (ih (Nat.le_of_succ_le hk)) hearly

/-- **A frame has one dot for every place**, apart from a place that may be left out at
its end. The last dot leads to the next frame. -/
theorem exists_dots (h : p.beam.AtTime t) (ht : t % dotsPerFrame = 0) :
    ∃ dots, (dots = 89341 ∨ dots = 89342) ∧ ∀ k < dots,
      (s.behind p (k + 1)).beam.AtTime (t + if k + 1 < dots then k + 1 else dotsPerFrame) := by
  -- one dot decides how long the frame is: the one that finds the beam at the last dot but one
  have hlate := atTime_behind (s := s) h ht (Nat.le_refl 89340)
  have hnext := atTime_succ hlate
  cases hskips : (s.behind p 89340).beam.skips (s.behind p (89340 + 1)).beam with
  | true =>
      refine ⟨89341, .inl rfl, fun k hk => ?_⟩
      rw [hskips] at hnext
      split
      · exact atTime_behind h ht (by omega)
      · obtain rfl : k = 89340 := by omega
        exact hnext
  | false =>
      rw [hskips] at hnext
      refine ⟨89342, .inr rfl, fun k hk => ?_⟩
      obtain hearly | rfl | rfl : k < 89340 ∨ k = 89340 ∨ k = 89341 := by omega
      · rw [if_pos (by omega)]
        exact atTime_behind h ht (by omega)
      · exact hnext
      · refine atTime_next hnext ?_
        simp only [dotsPerFrame] at ht ⊢
        omega

/-- These are the dots of one frame: they lead from place to place, and the last one leads
to the upper left corner again. -/
structure Spans (s : Script) (p : PictureUnit) (dots : Nat) : Prop where
  size : dots = 89341 ∨ dots = 89342
  comesTo_iff : ∀ k < dots, ∀ line dot, dot ≤ 340 →
    (s.ComesTo p k line dot ↔ 341 * line + dot = if k + 1 < dots then k + 1 else 0)

/-- From the upper left corner on there is a frame of dots. -/
theorem exists_spans (s : Script) (hline : p.beam.line = 0) (hdot : p.beam.dot = 0) :
    ∃ dots, s.Spans p dots := by
  have hplace : p.beam.OnPicture := ⟨hline ▸ UInt16.zero_le, hdot ▸ UInt16.zero_le⟩
  have hbegins : (dotsPerFrame * p.beam.frame.toNat + 341 * p.beam.line.toNat +
      p.beam.dot.toNat) % dotsPerFrame = 0 := by
    rw [hline, hdot]
    exact Nat.mul_mod_right _ _
  obtain ⟨dots, hdots, htimes⟩ := exists_dots (s := s) hplace.atTime hbegins
  refine ⟨dots, hdots, fun k hk line dot hdot => ?_⟩
  generalize dotsPerFrame * p.beam.frame.toNat + 341 * p.beam.line.toNat + p.beam.dot.toNat = t
    at hbegins htimes
  have htime := htimes k hk
  have hlast : (s.behind p (k + 1)).beam.dot.toNat ≤ 340 := htime.onPicture.2
  have hrest : (t + if k + 1 < dots then k + 1 else dotsPerFrame) % dotsPerFrame =
      if k + 1 < dots then k + 1 else 0 := by
    simp only [dotsPerFrame] at hbegins ⊢
    split <;> omega
  rw [ComesTo, ← hrest, ← htime.frame_place.2]
  omega

/-- What a dot draws follows from the place that it leads to. -/
theorem draws_or_spares (s : Script) (p : PictureUnit) (k : Nat) :
    (∃ y < 240, ∃ x < 256, s.ComesTo p k y (x + 1) ∧
      ∃ light, (s.before p k).Draws (s.board k) (256 * y + x) light) ∨
      (s.before p k).Spares (s.board k) := by
  by_cases hplace : ∃ y < 240, ∃ x < 256, s.ComesTo p k y (x + 1)
  · obtain ⟨y, hy, x, hx, hcomes⟩ := hplace
    obtain ⟨light, -, hdraws⟩ := draws_visible hx hy hcomes.1 hcomes.2
    exact .inl ⟨y, hy, x, hx, hcomes, light, hdraws⟩
  · exact .inr (spares_hidden fun y hy x hx hcomes => hplace ⟨y, hy, x, hx, hcomes⟩)

/-- A pixel that is drawn stays until it is drawn again. -/
theorem read_kept {cell : Nat} {light : UInt32} {m : Nat}
    (hdraws : (s.before p k).Draws (s.board k) cell light)
    (hothers : ∀ j, k < j → j < m →
      (s.before p j).Spares (s.board j) ∨ ∃ cell' < 61440, ∃ light',
        cell' ≠ cell ∧ (s.before p j).Draws (s.board j) cell' light')
    (hcell : cell < 61440) (hm : k < m) : (s.behind p m).screen.read cell = light := by
  induction hm with
  | refl => exact hdraws.read
  | @step m hm ih =>
      have hkept := ih fun j hlow hhigh => hothers j hlow (Nat.lt_succ_of_lt hhigh)
      rw [← screen_before] at hkept
      rw [behind_succ, ← hkept]
      obtain hspares | ⟨cell', hcell', light', hne, hother⟩ := hothers m hm (Nat.lt_succ_self m)
      · exact congrArg (Memory.read · cell) (hspares _)
      · exact hother.read_other hcell hcell' hne

namespace Spans

variable {dots x y : Nat} {light : UInt32}

/-- The place of every pixel is reached. -/
theorem comesTo (h : s.Spans p dots) (hx : x < 256) (hy : y < 240) :
    341 * y + x < dots ∧ s.ComesTo p (341 * y + x) y (x + 1) := by
  have hsize := h.size
  have hk : 341 * y + x < dots := by omega
  refine ⟨hk, (h.comesTo_iff _ hk _ _ (by omega)).2 ?_⟩
  rw [if_pos (by omega)]
  rfl

/-- It is reached by one dot only. -/
theorem eq_of_comesTo (h : s.Spans p dots) (hk : k < dots) (hx : x < 256)
    (hcomes : s.ComesTo p k y (x + 1)) : k = 341 * y + x := by
  have hplace := (h.comesTo_iff k hk _ _ (by omega)).1 hcomes
  split at hplace <;> omega

/-- A pixel is drawn by one dot only. -/
theorem eq_of_draws (h : s.Spans p dots) (hx : x < 256) (hy : y < 240) (hk : k < dots)
    (hdraws : (s.before p k).Draws (s.board k) (256 * y + x) light) : k = 341 * y + x := by
  obtain ⟨y', hy', x', hx', hcomes, light', hdraws'⟩ | hspares := s.draws_or_spares p k
  · have hcell := hdraws'.cell_eq hdraws (by omega) (by omega)
    obtain ⟨rfl, rfl⟩ : y' = y ∧ x' = x := by omega
    exact h.eq_of_comesTo hk hx' hcomes
  · exact absurd hdraws hspares.not_draws

/-- What is drawn is on the screen at the end of the frame. -/
theorem read_end (h : s.Spans p dots) (hx : x < 256) (hy : y < 240) (hk : k < dots)
    (hdraws : (s.before p k).Draws (s.board k) (256 * y + x) light) :
    (s.behind p dots).screen.read (256 * y + x) = light := by
  refine read_kept hdraws (fun j hlow hj => ?_) (by omega) hk
  obtain ⟨y', hy', x', hx', -, light', hdraws'⟩ | hspares := s.draws_or_spares p j
  · refine .inr ⟨_, by omega, light', fun hcell => ?_, hdraws'⟩
    rw [hcell] at hdraws'
    have hsame := (h.eq_of_draws hx hy hj hdraws').trans (h.eq_of_draws hx hy hk hdraws).symm
    exact Nat.ne_of_gt hlow hsame
  · exact .inl hspares

end Spans

end Script

open Script in
/-- **Every pixel is drawn exactly once in a frame.** From the upper left corner on, with
whatever accesses in front of every dot and whatever board, the frame has 89342 dots or one
less, of which the last one leads to the upper left corner of the next frame:

* the dot that leads to line `y` and dot `x + 1` draws cell `256 * y + x` with full alpha,
  and no other dot of the frame draws it, so that its light is on the screen at the end,
* the dots that lead to any other place draw nothing, and neither do the accesses. -/
theorem drawn_once (s : Script) (p : PictureUnit) (hline : p.beam.line = 0)
    (hdot : p.beam.dot = 0) :
    ∃ dots, (dots = 89341 ∨ dots = 89342) ∧
      (∀ k < dots, s.ComesTo p k 0 0 ↔ k + 1 = dots) ∧
      (∀ y < 240, ∀ x < 256, ∃ k < dots, ∃ light, s.ComesTo p k y (x + 1) ∧
        (s.before p k).Draws (s.board k) (256 * y + x) light ∧ component light 24 = 0xFF ∧
        (∀ j < dots, ∀ other,
          (s.before p j).Draws (s.board j) (256 * y + x) other → j = k) ∧
        (s.behind p dots).screen.read (256 * y + x) = light) ∧
      (∀ k < dots, (∀ y < 240, ∀ x < 256, ¬ s.ComesTo p k y (x + 1)) →
        (s.before p k).Spares (s.board k)) ∧
      ∀ k, (s.before p k).screen = (s.behind p k).screen := by
  obtain ⟨dots, h⟩ := s.exists_spans hline hdot
  refine ⟨dots, h.size, fun k hk => ?_, fun y hy x hx => ?_,
    fun k hk => PictureUnit.spares_hidden, fun k => screen_before⟩
  · rw [h.comesTo_iff k hk 0 0 (by omega)]
    split <;> omega
  · obtain ⟨hk, hcomes⟩ := h.comesTo hx hy
    obtain ⟨light, halpha, hdraws⟩ := PictureUnit.draws_visible hx hy hcomes.1 hcomes.2
    exact ⟨_, hk, light, hcomes, hdraws, halpha, fun j hj _ => h.eq_of_draws hx hy hj,
      h.read_end hx hy hk hdraws⟩

/-- The processor reads the status in front of every dot and shows background and sprites in
every other dot only: the pixel in the lower right corner is drawn all the same. -/
theorem drawn_once_flickering :
    let board := Board.ofCartridge (.minimal .linear)
    let s : Script :=
      { board := fun _ => board
        accesses := fun k => [.read board 2, .write board 1 (if k % 2 = 0 then 0x1E else 0)] }
    let p : PictureUnit := { PictureUnit.powerOn with
      beam := { line := 0, dot := 0, frame := 7, odd := true } }
    p.beam.line = 0 ∧ p.beam.dot = 0 ∧ ∃ k light, s.ComesTo p k 239 256 ∧
      (s.before p k).Draws (s.board k) 61439 light ∧ component light 24 = 0xFF := by
  intro board s p
  obtain ⟨dots, -, -, hdrawn, -⟩ := drawn_once s p rfl rfl
  obtain ⟨k, -, light, hcomes, hdraws, halpha, -⟩ := hdrawn 239 (by decide) 255 (by decide)
  exact ⟨rfl, rfl, k, light, hcomes, hdraws, halpha⟩

end Famicom.Video
