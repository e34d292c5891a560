import Famicom.Proofs.Cartridge.Loading
import Famicom.Proofs.Video.Background

/-!
# A frame of background

A frame is drawn without anyone touching the picture unit: dot follows dot, the
board may count lines in between, and the processor may take the interrupt. Then

* **step** — every dot brings the beam one dot nearer to the end of the picture,
  through the stages of the lines, and leaves the points drawn so far as the
  look-up has them (`Still.tick_showing`);
* **run** — so does every run of dots (`Still.afterAll_showing`);
* **frame** — at the end of the picture the whole screen is what a look-up in the
  world finds (`screen_eq_lookup`).
-/

namespace Famicom.Video

open Cartridge Scroll Word

/-! ## The beam -/

namespace Beam

/-- The dots until the beam is behind the picture. Every other frame the line
before the picture is one dot short. -/
def dotsLeft (b : Beam) : Nat :=
  if b.line.toNat = 261 then 241 * 341 - b.dot.toNat - b.odd.toNat
  else (240 - b.line.toNat) * 341 - b.dot.toNat

/-- In a short line the beam does not come to the last dot. -/
def NotLate (b : Beam) : Prop := b.odd = true → b.line.toNat = 261 → b.dot.toNat ≤ 339

variable {b : Beam}

/-- A beam is one dot behind another one. -/
def Follows (b b' : Beam) : Prop :=
  Next b.line.toNat b.dot.toNat b'.line.toNat b'.dot.toNat ∧ b'.NotLate ∧
    b'.dotsLeft + 1 = b.dotsLeft

theorem follows_right (hline : b.line.toNat = 261 ∨ b.line.toNat < 240) (hdot : b.dot.toNat < 340)
    (hshort : ¬ (b.odd = true ∧ b.line.toNat = 261 ∧ b.dot.toNat = 339)) (hlate : b.NotLate) :
    b.Follows { b with dot := b.dot + 1 } := by
  have hnext : (b.dot + 1).toNat = b.dot.toNat + 1 := Word.toNat_succ (by omega)
  have hparity : b.odd.toNat ≤ 1 := Bool.toNat_le _
  refine ⟨?_, ?_, ?_⟩
  · simp only [hnext]
    exact .right hdot
  · intro hodd hpre
    have hlast : b.dot.toNat ≤ 339 := hlate hodd hpre
    have hne : b.dot.toNat ≠ 339 := fun h => hshort ⟨hodd, hpre, h⟩
    simp only [hnext]
    omega
  · -- in a short line the beam stops in front of the dot that is left out
    have hroom : b.line.toNat = 261 → b.dot.toNat + b.odd.toNat < 340 := by
      intro hpre
      cases hodd : b.odd with
      | false => exact hdot
      | true =>
          have hlast : b.dot.toNat ≤ 339 := hlate hodd hpre
          have hne : b.dot.toNat ≠ 339 := fun h => hshort ⟨hodd, hpre, h⟩
          simp only [Bool.toNat_true]
          omega
    simp only [dotsLeft, hnext]
    by_cases hpre : b.line.toNat = 261
    · rw [if_pos hpre, if_pos hpre]
      omega
    · rw [if_neg hpre, if_neg hpre]
      omega

theorem follows_down (hline : b.line.toNat < 240) (hdot : b.dot.toNat = 340) :
    b.Follows { b with dot := 0, line := b.line + 1 } := by
  have hnext : (b.line + 1).toNat = b.line.toNat + 1 := Word.toNat_succ (by omega)
  refine ⟨?_, ?_, ?_⟩
  · simp only [hnext, hdot]
    exact .down (by omega)
  · intro _ hpre
    simp only [hnext] at hpre
    omega
  · simp only [dotsLeft, hnext, hdot]
    rw [if_neg (by omega), if_neg (by omega)]
    simp only [UInt16.reduceToNat]
    omega

/-- From the end of the line before the picture, be it a short one or not. -/
theorem follows_nextFrame (hline : b.line.toNat = 261) (hdot : b.dot.toNat + b.odd.toNat = 340) :
    b.Follows b.nextFrame := by
  have hparity : b.odd.toNat ≤ 1 := Bool.toNat_le _
  refine ⟨?_, ?_, ?_⟩
  · rw [hline]
    exact .top (by omega) (by omega)
  · intro _ (h : 0 = 261)
    exact absurd h (by decide)
  · have hend : b.nextFrame.dotsLeft = 240 * 341 := rfl
    rw [hend, dotsLeft, if_pos hline]
    omega

/-- Dots are left on the line before the picture and on the lines of the picture. -/
theorem dotsLeft_pos (hdot : b.dot.toNat ≤ 340) :
    0 < b.dotsLeft ↔ b.line.toNat = 261 ∨ b.line.toNat < 240 := by
  have hparity : b.odd.toNat ≤ 1 := Bool.toNat_le _
  unfold dotsLeft
  by_cases hpre : b.line.toNat = 261
  · rw [if_pos hpre]
    omega
  · rw [if_neg hpre]
    omega

/-- While something is shown, a dot leads to the next place. -/
theorem advance_follows (hline : b.line.toNat = 261 ∨ b.line.toNat < 240)
    (hdot : b.dot.toNat ≤ 340) (hlate : b.NotLate) : b.Follows (b.advance true) := by
  have hskip : (true && b.odd && b.line == preRenderLine && b.dot == 339) = true ↔
      b.odd = true ∧ b.line.toNat = 261 ∧ b.dot.toNat = 339 := by
    simp only [Bool.true_and, Bool.and_eq_true, beq_iff_eq, ← UInt16.toNat_inj, preRenderLine,
      UInt16.reduceToNat, and_assoc]
  have hright : b.dot < lastDot ↔ b.dot.toNat < 340 := UInt16.lt_iff_toNat_lt
  have hdown : b.line < preRenderLine ↔ b.line.toNat < 261 := UInt16.lt_iff_toNat_lt
  simp only [advance, hskip, hright, hdown]
  by_cases hshort : b.odd = true ∧ b.line.toNat = 261 ∧ b.dot.toNat = 339
  · obtain ⟨hodd, hpre, hlast⟩ := hshort
    rw [if_pos ⟨hodd, hpre, hlast⟩]
    exact follows_nextFrame hpre (by rw [hlast, hodd]; rfl)
  rw [if_neg hshort]
  by_cases hinside : b.dot.toNat < 340
  · rw [if_pos hinside]
    exact follows_right hline hinside hshort hlate
  have hlast : b.dot.toNat = 340 := by omega
  rw [if_neg hinside]
  by_cases habove : b.line.toNat < 261
  · rw [if_pos habove]
    exact follows_down (by omega) hlast
  · have hpre : b.line.toNat = 261 := by omega
    -- a short line has been left before its last dot
    have heven : b.odd = false := by
      cases hodd : b.odd with
      | false => rfl
      | true =>
          have hle : b.dot.toNat ≤ 339 := hlate hodd hpre
          omega
    rw [if_neg habove]
    exact follows_nextFrame hpre (by rw [hlast, heven]; rfl)

end Beam

/-! ## Drawing -/

/-- The points that are drawn when the beam is at a place. -/
def drawn (line dot : Nat) : Nat := if line = 261 then 0 else line * 256 + min dot 256

/-- A dot that is not visible does not count. -/
theorem drawn_hidden {line dot line' dot' : Nat} (hnext : Next line dot line' dot')
    (hline : line = 261 ∨ line < 240) (hhidden : ¬ (line' < 240 ∧ 1 ≤ dot' ∧ dot' ≤ 256)) :
    drawn line' dot' = drawn line dot := by
  unfold drawn
  cases hnext with
  | right hlt =>
      by_cases hpre : line = 261
      · rw [if_pos hpre, if_pos hpre]
      · rw [if_neg hpre, if_neg hpre]
        omega
  | down hlt =>
      rw [if_neg (by omega), if_neg (by omega)]
      omega
  | top hlow hhigh => rfl

/-- A visible dot is drawn behind the others. -/
theorem drawn_visible {line dot : Nat} (hline : line < 240) (hdot : dot < 256) :
    drawn line dot = line * 256 + dot ∧ drawn line (dot + 1) = line * 256 + dot + 1 := by
  unfold drawn
  rw [if_neg (by omega), if_neg (by omega)]
  omega

/-- Cells that are written one behind the other. -/
theorem read_write_next {screen : Memory UInt32 61440} {light : Nat → UInt32} {n : Nat}
    (h : ∀ i < n, screen.read i = light i) (hn : n < 61440) :
    ∀ i < n + 1, (screen.write n (light n)).read i = light i := by
  intro i hi
  rw [Memory.read_write, Nat.mod_eq_of_lt hn, Nat.mod_eq_of_lt (by omega : i < 61440)]
  by_cases hlast : n = i
  · rw [if_pos hlast, hlast]
  · rw [if_neg hlast]
    exact h i (by omega)

/-- The first `n` points of the screen, line by line, are those of the
background. -/
def Painted (s : Still) (n : Nat) (screen : Memory UInt32 61440) : Prop :=
  ∀ i < n, screen.read i = s.light (i % 256) (i / 256)

theorem Painted.write {s : Still} {n : Nat} {screen : Memory UInt32 61440} (h : Painted s n screen)
    (hn : n < 61440) : Painted s (n + 1) (screen.write n (s.light (n % 256) (n / 256))) :=
  @read_write_next screen (fun i => s.light (i % 256) (i / 256)) n h hn

namespace Still

variable {s : Still} {p : PictureUnit} {b : Board} {y q r : Nat}

/-- The pixel of a dot is the colour of its point of the world. -/
theorem drawPixel_eq (hs : s.Shows) (hp : s.Held p)
    (h : Fetching s y (q + 2) r p.scroll.v p.tile) (hr : r < 8) :
    p.drawPixel = p.plot (s.world.colour (s.pointOf (8 * q + r)) (s.lineOf y)) := by
  have hpixel := h.pixel hs hr hp.fine
  have hvalue := s.world.value_lt (s.pointOf (8 * q + r)) (s.lineOf y)
  have hquadrant := s.world.quadrant_lt (s.pointOf (8 * q + r)) (s.lineOf y)
  have hbackground (left : Bool) : p.backgroundPixel left = p.tile.pixel p.scroll.fineX := by
    simp [PictureUnit.backgroundPixel, hp.mask, hs.background, hs.left]
  have hsprite (left : Bool) (x : UInt32) : p.spritePixel? left x = none := by
    simp [PictureUnit.spritePixel?, hp.mask, hs.sprites]
  have hbits : (p.tile.pixel p.scroll.fineX &&& 0x03).toNat =
      s.world.value (s.pointOf (8 * q + r)) (s.lineOf y) := by
    rw [Byte.toNat_and_low _ 2 rfl, hpixel]
    omega
  have hsolid : (p.tile.pixel p.scroll.fineX &&& 0x03 != 0) = true ↔
      s.world.value (s.pointOf (8 * q + r)) (s.lineOf y) ≠ 0 := by
    rw [bne_iff_ne, ne_eq, ← UInt8.toNat_inj, hbits]
    rfl
  simp only [PictureUnit.drawPixel, hbackground, hsprite, hsolid]
  congr 1
  rw [PictureUnit.colour, World.colour, World.entry, hp.palette]
  by_cases hzero : s.world.value (s.pointOf (8 * q + r)) (s.lineOf y) = 0
  · rw [if_neg (not_not_intro hzero), if_pos hzero]
    rfl
  · -- a solid pixel selects no backdrop cell, of which there are two copies
    have hcell : paletteCell (p.tile.pixel p.scroll.fineX).toNat =
        (p.tile.pixel p.scroll.fineX).toNat := by
      simp only [paletteCell]
      rw [if_neg (by omega)]
      omega
    rw [if_pos hzero, if_neg hzero, hcell, hpixel]

/-- A dot draws the next point of the picture, or nothing. -/
theorem drawStep_painted {line dot : Nat} (hs : s.Shows) (hp : s.Held p)
    (hstage : Stage s line dot p.scroll.v p.tile)
    (hnext : Next line dot p.beam.line.toNat p.beam.dot.toNat) (hmore : line ≠ 240)
    (hpainted : Painted s (drawn line dot) p.screen) :
    ∃ screen, p.drawStep = { p with screen } ∧
      Painted s (drawn p.beam.line.toNat p.beam.dot.toNat) screen := by
  have hplaces := hstage.place
  by_cases hvisible :
      p.beam.line.toNat < 240 ∧ 1 ≤ p.beam.dot.toNat ∧ p.beam.dot.toNat ≤ 256
  · -- only from within a visible line a dot leads to a visible dot
    obtain ⟨hy, hdot⟩ := hvisible
    generalize hline' : p.beam.line.toNat = line' at hnext hy
    generalize hdot' : p.beam.dot.toNat = dot' at hnext hdot
    cases hnext with
    | down hlt => omega
    | top hlow hhigh => omega
    | right hlt =>
        obtain ⟨q, r, hplace, hr, hfetching⟩ := hstage.fetching_of_visible hy (by omega)
        obtain ⟨hbefore, hafter⟩ := drawn_visible hy (by omega : dot < 256)
        have hmod : drawn line dot % 256 = 8 * q + r := by omega
        have hdiv : drawn line dot / 256 = line := by omega
        have hcell : p.beam.line.toNat * screenWidth + (p.beam.dot.toNat - 1) = drawn line dot := by
          rw [hline', hdot', hbefore, screenWidth]
          omega
        have hwritten := hpainted.write (by omega)
        rw [hmod, hdiv] at hwritten
        refine ⟨p.screen.write (drawn line dot) (s.light (8 * q + r) line), ?_, ?_⟩
        · rw [PictureUnit.drawStep_visible (hline' ▸ hy) (hdot' ▸ hdot),
            drawPixel_eq hs hp hfetching hr, PictureUnit.plot, hcell, hp.mask, light]
        · rw [hafter, ← hbefore]
          exact hwritten
  · refine ⟨p.screen, PictureUnit.drawStep_hidden hvisible, ?_⟩
    rw [drawn_hidden hnext (by omega) hvisible]
    exact hpainted

/-! ## Steps -/

/-- The background is shown, and is drawn as far as the beam has come. -/
structure Showing (s : Still) (p : PictureUnit) : Prop where
  held : s.Held p
  stage : Stage s p.beam.line.toNat p.beam.dot.toNat p.scroll.v p.tile
  late : p.beam.NotLate
  painted : Painted s (drawn p.beam.line.toNat p.beam.dot.toNat) p.screen

/-- Only the parts of a dot of background matter. -/
theorem Showing.of_view {p q : PictureUnit} (h : s.Showing p) (hview : q.view = p.view) :
    s.Showing q := by
  have hmask : q.mask = p.mask := congrArg View.mask hview
  have hcontrol : q.control = p.control := congrArg View.control hview
  have hscroll : q.scroll = p.scroll := congrArg View.scroll hview
  have hbeam : q.beam = p.beam := congrArg View.beam hview
  have htile : q.tile = p.tile := congrArg View.tile hview
  have hnametables : q.nametables = p.nametables := congrArg View.nametables hview
  have hpalette : q.palette = p.palette := congrArg View.palette hview
  have hscreen : q.screen = p.screen := congrArg View.screen hview
  obtain ⟨hnames, hcolours, hupper, hshown, hcolumn, hline, hfine⟩ := h.held
  refine ⟨⟨?_, ?_, ?_, ?_, ?_, ?_, ?_⟩, ?_, ?_, ?_⟩
  · rw [hnametables, hnames]
  · rw [hpalette, hcolours]
  · rw [hcontrol, hupper]
  · rw [hmask, hshown]
  · rw [hscroll]
    exact hcolumn
  · rw [hscroll]
    exact hline
  · rw [hscroll, hfine]
  · rw [hbeam, hscroll, htile]
    exact h.stage
  · rw [hbeam]
    exact h.late
  · rw [hbeam, hscreen]
    exact h.painted

theorem fetchStep_shape (p : PictureUnit) (b : Board) :
    ∃ v tile, p.fetchStep b = { p with tile, scroll := { p.scroll with v } } := by
  unfold PictureUnit.fetchStep
  split
  · unfold PictureUnit.fetchTile
    simp only []
    split <;> exact ⟨_, _, rfl⟩
  · exact ⟨_, _, rfl⟩

theorem moveScroll_shape (p : PictureUnit) :
    ∃ v, p.moveScroll = { p with scroll := { p.scroll with v } } := by
  unfold PictureUnit.moveScroll
  simp only []
  split
  · exact ⟨_, rfl⟩
  split
  · exact ⟨_, rfl⟩
  split
  · exact ⟨_, rfl⟩
  · exact ⟨_, rfl⟩

/-- Before the end of the picture the beam is on the line before it or on one of
its lines, and at the end there is no dot left. -/
theorem Showing.dotsLeft_pos (h : s.Showing p) :
    0 < p.beam.dotsLeft ↔ p.beam.line.toNat = 261 ∨ p.beam.line.toNat < 240 :=
  Beam.dotsLeft_pos h.stage.place.1

/-- A dot draws what the look-up finds, and is one dot less to the end of the
picture. -/
theorem tick_showing (hs : s.Shows) (hb : s.Shown b) (h : s.Showing p)
    (hmore : 0 < p.beam.dotsLeft) :
    s.Showing (p.tick b) ∧ (p.tick b).beam.dotsLeft + 1 = p.beam.dotsLeft := by
  have hline := h.dotsLeft_pos.1 hmore
  have hrendering : p.rendering = true := by
    rw [PictureUnit.rendering, h.held.mask]
    exact Byte.hasBits_or_left hs.background _
  have hadvance : p.advance.beam = p.beam.advance true := by rw [PictureUnit.advance, hrendering]
  obtain ⟨hnext, hlate, hleft⟩ := Beam.advance_follows hline h.stage.place.1 h.late
  rw [← hadvance] at hnext hlate hleft
  have hplace := hnext.place hline
  have hheld : s.Held p.advance :=
    h.held.update p.advance.beam p.advance.nmi p.scroll.v p.tile p.screen
  obtain ⟨screen, hdraw, hpainted⟩ :=
    drawStep_painted hs hheld h.stage hnext (by omega) h.painted
  have hstage := stage_dot (p := { p.advance with screen }) hs
    (hheld.update _ _ _ _ screen) hb h.stage hnext (by omega) rfl rfl
  -- of the dot only the view is known, which is all that the invariant looks at
  have hview := PictureUnit.view_tick (b := b) hrendering hplace
  rw [hdraw] at hview
  obtain ⟨v, tile, hfetch⟩ := fetchStep_shape { p.advance with screen } b
  obtain ⟨v', hmove⟩ := moveScroll_shape ({ p.advance with screen }.fetchStep b)
  rw [hmove] at hview hstage
  rw [hfetch] at hview hstage
  have hshowing : s.Showing
      { p.advance with screen, tile, scroll := { p.advance.scroll with v := v' } } :=
    ⟨hheld.update p.advance.beam p.advance.nmi v' tile screen, hstage, hlate, hpainted⟩
  have hbeam : (p.tick b).beam = p.advance.beam := congrArg View.beam hview
  refine ⟨hshowing.of_view hview, ?_⟩
  rw [hbeam]
  exact hleft

end Still

/-! ## Runs -/

/-- What happens to a picture unit while nobody uses its registers. The board may
change from dot to dot. -/
inductive Event where
  | dot (b : Board)
  | takeNmi

/-- The number of dots among the events. -/
def dots : List Event → Nat
  | [] => 0
  | .dot _ :: rest => dots rest + 1
  | .takeNmi :: rest => dots rest

theorem dots_replicate (n : Nat) (b : Board) : dots (List.replicate n (.dot b)) = n := by
  induction n with
  | zero => rfl
  | succ n ih =>
      rw [List.replicate_succ, dots, ih]

namespace PictureUnit

/-- The picture unit behind an event. -/
def after (p : PictureUnit) : Event → PictureUnit
  | .dot b => p.tick b
  | .takeNmi => p.takeNmi.2

/-- The picture unit behind all events. -/
def afterAll (p : PictureUnit) (events : List Event) : PictureUnit := events.foldl after p

end PictureUnit

namespace Still

variable {s : Still} {p : PictureUnit}

/-- Up to the end of the picture, every run of dots draws what the look-up
finds. -/
theorem afterAll_showing (hs : s.Shows) (events : List Event)
    (hboards : ∀ b, .dot b ∈ events → s.Shown b) (h : s.Showing p)
    (hdots : dots events ≤ p.beam.dotsLeft) :
    s.Showing (p.afterAll events) ∧
      (p.afterAll events).beam.dotsLeft + dots events = p.beam.dotsLeft := by
  -- the dots that are left decide that the picture is not complete before a dot
  induction events generalizing p with
  | nil => exact ⟨h, rfl⟩
  | cons event rest ih =>
      have hrest : ∀ b, .dot b ∈ rest → s.Shown b := fun b hb => hboards b (.tail _ hb)
      cases event with
      | dot b =>
          simp only [dots] at hdots ⊢
          obtain ⟨hshowing, hleft⟩ := tick_showing hs (hboards b (.head _)) h (by omega)
          obtain ⟨hend, hcount⟩ := ih hrest hshowing (by omega)
          refine ⟨hend, ?_⟩
          show ((p.tick b).afterAll rest).beam.dotsLeft + _ = _
          omega
      | takeNmi =>
          have hview := p.view_takeNmi
          have hbeam : p.takeNmi.2.beam = p.beam := congrArg View.beam hview
          have hrun := ih hrest (h.of_view hview) (hbeam ▸ hdots)
          rw [hbeam] at hrun
          exact hrun

end Still

/-! ## The frame -/

/-- The world that a picture unit shows with a board. -/
def worldOf (p : PictureUnit) (b : Board) : World :=
  { nametables := p.nametables, palette := p.palette, mirroring := b.mirroring
    pattern := b.readPattern, upper := hasBits p.control 0x10 }

/-- Where a frame of background begins: on the line before the picture, with the
background shown, in its left columns too, and no sprites. The upper left corner
lies in one of the four nametables, `x` columns and `y` lines in it. -/
structure AtStart (p : PictureUnit) (right lower x y : Nat) : Prop where
  line : p.beam.line = 261
  dot : p.beam.dot = 0
  background : hasBits p.mask maskBackground = true
  backgroundLeft : hasBits p.mask maskBackgroundLeft = true
  sprites : hasBits p.mask maskSprites = false
  position : p.scroll.t = origin right lower x y
  fineX : p.scroll.fineX.toNat = x % 8

/-- The background that is drawn from such a beginning. -/
def stillOf (p : PictureUnit) (board : Board) (right lower x y : Nat) : Still :=
  { world := worldOf p board, mask := p.mask
    column := 32 * right + x / 8, line := 240 * lower + y, fine := x % 8 }

namespace AtStart

variable {p : PictureUnit} {right lower x y : Nat}

theorem shows (h : AtStart p right lower x y) (board : Board) (hright : right < 2)
    (hlower : lower < 2) (hx : x < 256) (hy : y < 240) :
    (stillOf p board right lower x y).Shows := by
  refine ⟨h.background, h.backgroundLeft, h.sprites, ?_, ?_, Nat.mod_lt _ (by decide)⟩
  · show 32 * right + x / 8 < 64
    omega
  · show 240 * lower + y < 480
    omega

/-- At the start nothing is drawn, and nothing is known of the position but what `t`
holds. -/
theorem showing (h : AtStart p right lower x y) (board : Board) (hright : right < 2)
    (hlower : lower < 2) (hx : x < 256) (hy : y < 240) :
    (stillOf p board right lower x y).Showing p := by
  have hheld : (stillOf p board right lower x y).Held p :=
    ⟨rfl, rfl, rfl, rfl, h.position ▸ atColumn_origin hright hlower hx hy,
      h.position ▸ atLine_origin hright hlower hx hy, h.fineX⟩
  refine ⟨hheld, ?_, ?_, ?_⟩
  · rw [h.line, h.dot]
    exact .waiting (Nat.zero_le _)
  · intro _ _
    rw [h.dot]
    decide
  · intro i hi
    rw [h.line] at hi
    exact absurd hi (Nat.not_lt_zero i)

theorem dotsLeft (h : AtStart p right lower x y) :
    p.beam.dotsLeft = 241 * 341 - p.beam.odd.toNat := by
  rw [Beam.dotsLeft, h.line, h.dot]
  rfl

end AtStart

/-- The corner and the column within its tile make the scroll again. -/
theorem light_stillOf (p : PictureUnit) (board : Board) (right lower x y column line : Nat) :
    (stillOf p board right lower x y).light column line =
      shade p.mask ((worldOf p board).colour
        ((256 * right + x + column) % 512) ((240 * lower + y + line) % 480)) := by
  have hcorner : 8 * (32 * right + x / 8) + x % 8 = 256 * right + x := by omega
  show shade p.mask ((worldOf p board).colour
    ((8 * (32 * right + x / 8) + x % 8 + column) % 512) ((240 * lower + y + line) % 480)) = _
  rw [hcorner]

/-- **The background pipeline is a look-up.** When a frame has been drawn with
nobody at the registers, the point in every column and line of the screen has the
colour of its point of the world, seen through the mask. -/
theorem screen_eq_lookup (p : PictureUnit) (board : Board) (events : List Event)
    {right lower x y : Nat} (hright : right < 2) (hlower : lower < 2) (hx : x < 256) (hy : y < 240)
    (hstart : AtStart p right lower x y)
    (hboards : ∀ b, .dot b ∈ events →
      b.mirroring = board.mirroring ∧ ∀ address, b.readPattern address = board.readPattern address)
    (hdots : dots events = 241 * 341 - p.beam.odd.toNat) :
    (p.afterAll events).beam.line = 240 ∧ (p.afterAll events).beam.dot = 0 ∧
      ∀ column < 256, ∀ line < 240,
        (p.afterAll events).screen.read (line * 256 + column) =
          shade p.mask ((worldOf p board).colour
            ((256 * right + x + column) % 512) ((240 * lower + y + line) % 480)) := by
  have hshown : ∀ b, .dot b ∈ events → (stillOf p board right lower x y).Shown b :=
    fun b hb => ⟨(hboards b hb).1, (hboards b hb).2⟩
  have hcount := hstart.dotsLeft
  obtain ⟨hend, hsum⟩ := Still.afterAll_showing (hstart.shows board hright hlower hx hy) events
    hshown (hstart.showing board hright hlower hx hy) (by omega)
  -- no dot is left, so the beam is behind the picture and all points are drawn
  have hnone := hend.dotsLeft_pos
  have hplace := hend.stage.place
  have hlast : (p.afterAll events).beam.line.toNat = 240 ∧
      (p.afterAll events).beam.dot.toNat = 0 := by
    omega
  refine ⟨UInt16.toNat_inj.1 hlast.1, UInt16.toNat_inj.1 hlast.2, ?_⟩
  intro column hcolumn line hrow
  have hpainted := hend.painted (line * 256 + column)
  have hpoint : (line * 256 + column) % 256 = column := by omega
  have hpointLine : (line * 256 + column) / 256 = line := by omega
  rw [hlast.1, hlast.2, hpoint, hpointLine] at hpainted
  rw [hpainted (by show line * 256 + column < 240 * 256 + 0; omega), light_stillOf]

/-- A short frame of the upper right nametable, with the interrupt taken first. -/
theorem screen_eq_lookup_powerOn :
    let board := Board.ofCartridge (.minimal .linear)
    let p : PictureUnit := { PictureUnit.powerOn with
      mask := 0x0A
      beam := { line := 261, dot := 0, frame := 0, odd := true }
      scroll := { v := 0, t := origin 1 0 13 7, fineX := 5, second := false } }
    let events : List Event := .takeNmi :: List.replicate 82180 (.dot board)
    (p.afterAll events).beam.line = 240 ∧ (p.afterAll events).beam.dot = 0 ∧
      ∀ column < 256, ∀ line < 240,
        (p.afterAll events).screen.read (line * 256 + column) =
          shade p.mask ((worldOf p board).colour
            ((256 * 1 + 13 + column) % 512) ((240 * 0 + 7 + line) % 480)) := by
  refine screen_eq_lookup _ _ _ (by decide) (by decide) (by decide) (by decide)
    ⟨rfl, rfl, by decide, by decide, by decide, rfl, rfl⟩ ?_ ?_
  · intro b hb
    cases hb with
    | tail _ hb =>
        obtain rfl := Event.dot.inj (List.eq_of_mem_replicate hb)
        exact ⟨rfl, fun _ => rfl⟩
  · rw [dots, dots_replicate]
    rfl

end Famicom.Video
