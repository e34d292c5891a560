import Famicom.Proofs.Video.Compositing

/-!
# A frame with sprites

A frame is drawn without anyone touching the picture unit, with background and
sprites shown. Then

* **step** — every dot leaves the points drawn so far as the rule has them, and the
  flag of the first sprite as they are (`Composite.tick_composing`);
* **run** — so does every run of dots, while the background stays that of the
  picture unit without sprites (`Underway.afterAll`);
* **frame** — at the end of the picture the whole screen is composed by the rule, and
  the flag tells whether the first sprite has met the background
  (`screen_eq_composite`).

The background itself is a look-up in the world (`backgroundAt_eq_lookup`).
-/

namespace Famicom.Video

open Cartridge Scroll

/-! ## Drawing -/

namespace Composite

variable {c : Composite} {p : PictureUnit}

/-- The first `n` points of the screen, line by line, are composed. -/
def Painted (c : Composite) (n : Nat) (screen : Memory UInt32 61440) : Prop :=
  ∀ i < n, screen.read i = c.light (i % 256) (i / 256)

/-- The first sprite has met the background in one of the first `n` points. -/
def Met (c : Composite) (n : Nat) : Prop := ∃ i < n, c.hits (i % 256) (i / 256) = true

theorem Painted.write {n : Nat} {screen : Memory UInt32 61440} (h : c.Painted n screen)
    (hn : n < 61440) : c.Painted (n + 1) (screen.write n (c.light (n % 256) (n / 256))) :=
  @read_write_next screen (fun i => c.light (i % 256) (i / 256)) n h hn

theorem met_succ {n : Nat} : c.Met (n + 1) ↔ c.Met n ∨ c.hits (n % 256) (n / 256) = true :=
  Nat.exists_lt_succ_right

theorem not_met_zero : ¬ c.Met 0 := fun ⟨_, hi, _⟩ => absurd hi (Nat.not_lt_zero _)

/-- A dot draws the next point of the picture, or nothing. -/
theorem drawStep_painted {line dot : Nat} (hc : c.Shows) (hp : c.Held p)
    (hselecting : Selecting c.scene p.selection line dot)
    (hbackground : line < 240 → dot < 256 →
      (p.tile.pixel p.scroll.fineX).toNat = c.background dot line)
    (hnext : Next line dot p.beam.line.toNat p.beam.dot.toNat)
    (hmore : line = 261 ∨ line < 240) (hpainted : c.Painted (drawn line dot) p.screen) :
    ∃ screen hit, p.drawStep = { p with screen, spriteZeroHit := hit } ∧
      c.Painted (drawn p.beam.line.toNat p.beam.dot.toNat) screen ∧
      ((p.spriteZeroHit = true ↔ c.Met (drawn line dot)) →
        (hit = true ↔ c.Met (drawn p.beam.line.toNat p.beam.dot.toNat))) := by
  by_cases hvisible :
      p.beam.line.toNat < 240 ∧ 1 ≤ p.beam.dot.toNat ∧ p.beam.dot.toNat ≤ 256
  · -- only from within a visible line a dot leads to a visible dot
    obtain ⟨hy, hdot⟩ := hvisible
    generalize hline' : p.beam.line.toNat = line' at hnext hy
    generalize hdot' : p.beam.dot.toNat = dot' at hnext hdot
    cases hnext with
    | down hlt => omega
    | top hlow hhigh => omega
    | right hlt =>
        obtain ⟨hbefore, hafter⟩ := drawn_visible hy (by omega : dot < 256)
        have hmod : drawn line dot % 256 = dot := by omega
        have hdiv : drawn line dot / 256 = line := by omega
        have hcell : p.beam.line.toNat * screenWidth + (p.beam.dot.toNat - 1) = drawn line dot := by
          rw [hline', hdot', hbefore, screenWidth]
          omega
        have hwritten := hpainted.write (by omega)
        rw [hmod, hdiv] at hwritten
        refine ⟨p.screen.write (drawn line dot) (c.light dot line),
          p.spriteZeroHit || c.hits dot line, ?_, ?_, ?_⟩
        · rw [PictureUnit.drawStep_visible (hline' ▸ hy) (hdot' ▸ hdot),
            drawPixel_eq hc hp (hselecting.holds hy (by omega)) (hbackground hy (by omega))
              (by omega) hdot',
            PictureUnit.plot, hcell, hp.mask, light]
        · rw [hafter, ← hbefore]
          exact hwritten
        · intro hhit
          rw [hafter, ← hbefore, met_succ, hmod, hdiv, Bool.or_eq_true, hhit]
  · refine ⟨p.screen, p.spriteZeroHit, PictureUnit.drawStep_hidden hvisible, ?_, ?_⟩
    all_goals
      rw [drawn_hidden hnext hmore hvisible]
    · exact hpainted
    · exact id

end Composite

/-! ## Steps -/

/-- From the line before the picture to its end, the beam stays there. -/
theorem Next.inFrame {line dot line' dot' : Nat} (h : Next line dot line' dot')
    (hline : line = 261 ∨ line < 240) :
    dot' ≤ 340 ∧ (line' = 261 ∨ line' < 240 ∨ line' = 240 ∧ dot' = 0) := by
  cases h with
  | right hlt => omega
  | down hlt => omega
  | top hlow hhigh => omega

/-- Only the first dot of the line before the picture leads to the second one. -/
theorem Next.started {line dot line' dot' : Nat} (h : Next line dot line' dot')
    (hline : line = 261) (hlater : ¬ (dot' = 1 ∧ line' = 261)) : 1 ≤ dot := by
  cases h with
  | right hlt => omega
  | down hlt => omega
  | top hlow hhigh => omega

namespace Composite

variable {c : Composite} {p : PictureUnit} {b : Board}

/-- The picture is composed as far as the beam has come. -/
structure Composing (c : Composite) (p : PictureUnit) : Prop where
  held : c.Held p
  onPicture : p.beam.dot.toNat ≤ 340
  inFrame : p.beam.line.toNat = 261 ∨ p.beam.line.toNat < 240 ∨
    p.beam.line.toNat = 240 ∧ p.beam.dot.toNat = 0
  late : p.beam.NotLate
  selecting : Selecting c.scene p.selection p.beam.line.toNat p.beam.dot.toNat
  painted : c.Painted (drawn p.beam.line.toNat p.beam.dot.toNat) p.screen
  /-- The flag of the last frame stays until the second dot of the line before the
  picture. -/
  hit : (p.beam.line.toNat = 261 → 1 ≤ p.beam.dot.toNat) →
    (p.spriteZeroHit = true ↔ c.Met (drawn p.beam.line.toNat p.beam.dot.toNat))

/-- Drawing, selecting and moving on touch nothing of what is held. -/
theorem Held.of_view {q : PictureUnit} (h : c.Held p) (hmask : q.mask = p.mask)
    (hcontrol : q.control = p.control) (hpalette : q.palette = p.palette)
    (hsprites : q.sprites = p.sprites) : c.Held q :=
  ⟨hsprites.trans h.sprites, hcontrol ▸ h.tall, hcontrol ▸ h.upper, hpalette.trans h.palette,
    hmask.trans h.mask⟩

/-- Something is shown, and the beam goes on to the next dot. -/
theorem Composing.follows (h : c.Composing p) (hc : c.Shows)
    (hmore : p.beam.line.toNat = 261 ∨ p.beam.line.toNat < 240) :
    p.rendering = true ∧ p.beam.Follows p.advance.beam := by
  have hrendering : p.rendering = true := by
    rw [PictureUnit.rendering, h.held.mask]
    exact Byte.hasBits_or_left hc.background _
  have hadvance : p.advance.beam = p.beam.advance true := by rw [PictureUnit.advance, hrendering]
  refine ⟨hrendering, ?_⟩
  rw [hadvance]
  exact Beam.advance_follows hmore h.onPicture h.late

/-- **A dot composes the next point of the picture.** -/
theorem tick_composing (hc : c.Shows)
    (hb : ∀ address, b.readPattern address = c.scene.pattern address) (h : c.Composing p)
    (hbackground : p.beam.line.toNat < 240 → p.beam.dot.toNat < 256 →
      (p.tile.pixel p.scroll.fineX).toNat = c.background p.beam.dot.toNat p.beam.line.toNat)
    (hmore : p.beam.line.toNat = 261 ∨ p.beam.line.toNat < 240) : c.Composing (p.tick b) := by
  obtain ⟨hrendering, hnext, hlate, -⟩ := h.follows hc hmore
  have hheld : c.Held p.advance := h.held.of_view rfl rfl rfl rfl
  obtain ⟨screen, hit, hdraw, hpainted, hmet⟩ :=
    drawStep_painted hc hheld h.selecting hbackground hnext hmore h.painted
  have hticked := PictureUnit.tick_ticked (b := b) hrendering (hnext.place hmore) hdraw
  have hselecting := Selecting.dot (p := p.advance) h.selecting
    ⟨hheld.sprites, hheld.tall, hheld.upper, hb⟩ hnext hmore
  obtain ⟨hdot, hline⟩ := hnext.inFrame hmore
  refine ⟨?_, ?_, ?_, ?_, ?_, ?_, ?_⟩
  · exact h.held.of_view hticked.mask hticked.control hticked.palette hticked.sprites
  · rw [hticked.beam]
    exact hdot
  · rw [hticked.beam]
    exact hline
  · rw [hticked.beam]
    exact hlate
  · rw [hticked.beam, hticked.selection]
    exact hselecting
  · rw [hticked.beam, hticked.screen]
    exact hpainted
  · intro _
    rw [hticked.beam]
    by_cases hclear : p.advance.beam.dot.toNat = 1 ∧ p.advance.beam.line.toNat = 261
    · -- the flag is cleared where nothing has been drawn yet
      have hnone : drawn p.advance.beam.line.toNat p.advance.beam.dot.toNat = 0 := if_pos hclear.2
      rw [hticked.cleared hclear, hnone]
      exact ⟨fun hfalse => absurd hfalse (by decide), fun hzero => absurd hzero not_met_zero⟩
    · rw [hticked.kept hclear]
      exact hmet (h.hit fun hpre => hnext.started hpre hclear)

end Composite

/-! ## Runs -/

namespace PictureUnit

/-- The picture unit with its sprites switched off. -/
def withoutSprites (p : PictureUnit) : PictureUnit := { p with mask := p.mask &&& ~~~maskSprites }

/-- The picture unit after some dots in which it shows no sprites. -/
def backgroundOnly (p : PictureUnit) (board : Board) (dots : Nat) : PictureUnit :=
  p.withoutSprites.afterAll (List.replicate dots (.dot board))

/-- The pixel of the background at a point of the screen. From the start of the line
before the picture the beam needs that line and the lines above the point to come to
it, and a dot may be left out. -/
def backgroundAt (p : PictureUnit) (board : Board) (x y : Nat) : Nat :=
  let q := p.backgroundOnly board (341 - p.beam.odd.toNat + 341 * y + x)
  (q.tile.pixel q.scroll.fineX).toNat

theorem backgroundOnly_succ (p : PictureUnit) (board : Board) (n : Nat) :
    p.backgroundOnly board (n + 1) = (p.backgroundOnly board n).tick board := by
  rw [backgroundOnly, List.replicate_succ', afterAll, List.foldl_append]
  rfl

/-- A bit stays where others are switched off. -/
theorem hasBits_and {byte keep bit : UInt8} (h : keep &&& bit = bit) :
    hasBits (byte &&& keep) bit = hasBits byte bit := by
  rw [hasBits, UInt8.and_assoc, h]
  rfl

theorem rendering_withoutSprites {p : PictureUnit} (h : hasBits p.mask maskBackground = true) :
    p.withoutSprites.rendering = true :=
  Byte.hasBits_or_left ((hasBits_and rfl).trans h) _

end PictureUnit

/-- The picture that a picture unit shows with a board. -/
def compositeOf (p : PictureUnit) (board : Board) : Composite :=
  { scene :=
      { sprites := p.sprites, tall := hasBits p.control 0x20, upper := hasBits p.control 0x08
        pattern := board.readPattern }
    palette := p.palette, mask := p.mask, background := p.backgroundAt board }

/-- Where a frame begins: on the line before the picture, with background and sprites
shown, in the left columns too. -/
structure AtTop (p : PictureUnit) : Prop where
  line : p.beam.line = 261
  dot : p.beam.dot = 0
  background : hasBits p.mask maskBackground = true
  backgroundLeft : hasBits p.mask maskBackgroundLeft = true
  sprites : hasBits p.mask maskSprites = true
  spritesLeft : hasBits p.mask maskSpritesLeft = true

theorem AtTop.shows {p : PictureUnit} (h : AtTop p) (board : Board) : (compositeOf p board).Shows :=
  ⟨h.background, h.backgroundLeft, h.sprites, h.spritesLeft⟩

/-- A frame after `n` dots. -/
structure Underway (top : PictureUnit) (board : Board) (n : Nat) (p : PictureUnit) : Prop where
  composing : (compositeOf top board).Composing p
  abreast : Abreast p (top.backgroundOnly board n)
  rendering : (top.backgroundOnly board n).rendering = true
  count : n + p.beam.dotsLeft = 241 * 341 - top.beam.odd.toNat

namespace Underway

variable {top p : PictureUnit} {board b : Board} {n : Nat}

/-- At the start nothing is drawn. -/
theorem start (h : AtTop p) (board : Board) : Underway p board 0 p := by
  refine ⟨⟨⟨rfl, rfl, rfl, rfl, rfl⟩, ?_, ?_, ?_, ?_, ?_, ?_⟩, ⟨rfl, rfl, rfl, rfl, rfl, rfl⟩,
    PictureUnit.rendering_withoutSprites h.background, ?_⟩
  · rw [h.dot]
    decide
  · rw [h.line]
    exact .inl rfl
  · intro _ _
    rw [h.dot]
    decide
  · rw [h.line, h.dot]
    exact .waiting (Nat.zero_le _)
  · intro i hi
    rw [h.line] at hi
    exact absurd hi (Nat.not_lt_zero i)
  · intro hstarted
    have hdot := hstarted (by rw [h.line]; rfl)
    rw [h.dot] at hdot
    exact absurd hdot (by decide)
  · rw [Nat.zero_add, Beam.dotsLeft, h.line, h.dot]
    rfl

/-- The background of the next point is that without sprites. -/
theorem background (h : Underway top board n p) (hline : p.beam.line.toNat < 240)
    (hdot : p.beam.dot.toNat < 256) :
    (p.tile.pixel p.scroll.fineX).toNat =
      top.backgroundAt board p.beam.dot.toNat p.beam.line.toNat := by
  have hcount := h.count
  have hparity : top.beam.odd.toNat ≤ 1 := Bool.toNat_le _
  rw [Beam.dotsLeft, if_neg (by omega)] at hcount
  have hn : 341 - top.beam.odd.toNat + 341 * p.beam.line.toNat + p.beam.dot.toNat = n := by omega
  simp only [PictureUnit.backgroundAt, hn, h.abreast.tile, h.abreast.scroll]

/-- The frame is the same whether the interrupt is taken or not. -/
theorem takeNmi (h : Underway top board n p) : Underway top board n p.takeNmi.2 := by
  obtain ⟨hcomposing, habreast, hrendering, hcount⟩ := h
  have hview := p.view_takeNmi
  have hbeam : p.takeNmi.2.beam = p.beam := congrArg View.beam hview
  refine ⟨?_, (Abreast.of_view hview).symm.trans habreast, hrendering, hbeam ▸ hcount⟩
  unfold PictureUnit.takeNmi
  split
  · exact ⟨hcomposing.held.of_view rfl rfl rfl rfl, hcomposing.onPicture, hcomposing.inFrame,
      hcomposing.late, hcomposing.selecting, hcomposing.painted, hcomposing.hit⟩
  · exact hcomposing

/-- One more dot. -/
theorem tick (h : Underway top board n p) (htop : AtTop top)
    (hmirroring : b.mirroring = board.mirroring)
    (hpattern : ∀ address, b.readPattern address = board.readPattern address)
    (hmore : 0 < p.beam.dotsLeft) : Underway top board (n + 1) (p.tick b) := by
  have hline := (Beam.dotsLeft_pos h.composing.onPicture).1 hmore
  have hshows := htop.shows board
  obtain ⟨hrendering, hnext, -, hleft⟩ := h.composing.follows hshows hline
  have hplace := hnext.place hline
  have hahead := h.abreast.advance hrendering h.rendering
  refine ⟨?_, ?_, ?_, ?_⟩
  · exact Composite.tick_composing hshows hpattern h.composing h.background hline
  · rw [PictureUnit.backgroundOnly_succ]
    exact h.abreast.tick hmirroring.symm (fun address => (hpattern address).symm) hrendering
      h.rendering hplace
  · rw [PictureUnit.backgroundOnly_succ]
    exact PictureUnit.rendering_tick h.rendering (hahead.beam ▸ hplace)
  · have hcount := h.count
    have hbeam : (p.tick b).beam = p.advance.beam := p.beam_tick b
    rw [hbeam]
    omega

/-- Up to the end of the picture, every run of dots composes it. -/
theorem afterAll (htop : AtTop top) (events : List Event)
    (hboards : ∀ b, .dot b ∈ events →
      b.mirroring = board.mirroring ∧ ∀ address, b.readPattern address = board.readPattern address)
    (h : Underway top board n p) (hdots : dots events ≤ p.beam.dotsLeft) :
    Underway top board (n + dots events) (p.afterAll events) := by
  -- the dots that are left decide that the picture is not complete before a dot
  induction events generalizing n p with
  | nil => exact h
  | cons event rest ih =>
      have hrest : ∀ b, .dot b ∈ rest → b.mirroring = board.mirroring ∧
          ∀ address, b.readPattern address = board.readPattern address :=
        fun b hb => hboards b (.tail _ hb)
      cases event with
      | dot b =>
          obtain ⟨hmirroring, hpattern⟩ := hboards b (.head _)
          simp only [dots] at hdots ⊢
          have hcount := h.count
          have hnext := h.tick htop hmirroring hpattern (by omega)
          have hleft := hnext.count
          have hend := ih hrest hnext (by omega)
          rw [Nat.add_right_comm, Nat.add_assoc] at hend
          exact hend
      | takeNmi =>
          have hbeam : p.takeNmi.2.beam = p.beam := p.beam_takeNmi
          exact ih hrest h.takeNmi (hbeam ▸ hdots)

end Underway

/-! ## The frame -/

theorem dots_append (before after : List Event) :
    dots (before ++ after) = dots before + dots after := by
  induction before with
  | nil => exact (Nat.zero_add _).symm
  | cons event rest ih =>
      cases event with
      | dot b =>
          show dots (rest ++ after) + 1 = dots rest + 1 + dots after
          rw [ih, Nat.add_right_comm]
      | takeNmi => exact ih

theorem dots_le_of_begins {before events : List Event} (h : before <+: events) :
    dots before ≤ dots events := by
  obtain ⟨after, rfl⟩ := h
  rw [dots_append]
  exact Nat.le_add_right _ _

/-- The points of a whole picture. -/
theorem Composite.met_all {c : Composite} :
    c.Met (240 * 256) ↔ ∃ column < 255, ∃ line < 240,
      c.scene.winner column line = some 0 ∧ c.solid column line = true := by
  constructor
  · rintro ⟨i, hi, hhits⟩
    simp only [hits, Bool.and_eq_true, decide_eq_true_eq, beq_iff_eq] at hhits
    obtain ⟨⟨hcolumn, hwinner⟩, hsolid⟩ := hhits
    exact ⟨i % 256, hcolumn, i / 256, by omega, hwinner, hsolid⟩
  · rintro ⟨column, hcolumn, line, hline, hwinner, hsolid⟩
    have hmod : (line * 256 + column) % 256 = column := by omega
    have hdiv : (line * 256 + column) / 256 = line := by omega
    refine ⟨line * 256 + column, by omega, ?_⟩
    simp only [hits, hmod, hdiv, hwinner, hsolid, hcolumn, decide_true, beq_self_eq_true,
      Bool.and_self]

/-- What a picture unit draws during some events is this picture. -/
structure Composite.DrawnBy (c : Composite) (p : PictureUnit) (events : List Event) : Prop where
  /-- In every dot the sprite pixel is that of the sprite that shows at the point. -/
  sprite : ∀ before, before <+: events → ∀ column < 256, ∀ line < 240,
    (p.afterAll before).beam.dot.toNat = column → (p.afterAll before).beam.line.toNat = line →
      ((p.afterAll before).spritePixel? (column < 8) (.ofNat column)).map Scene.seenSlot =
        (c.scene.winner column line).map (c.scene.seen column line)
  /-- No sprite shows on the first line. -/
  first : ∀ before, before <+: events → ∀ column < 256,
    (p.afterAll before).beam.dot.toNat = column → (p.afterAll before).beam.line = 0 →
      (p.afterAll before).spritePixel? (column < 8) (.ofNat column) = none
  /-- At the end the beam is behind the picture. -/
  beam : (p.afterAll events).beam.line = 240 ∧ (p.afterAll events).beam.dot = 0
  /-- Every point of the screen has the colour of its sprite or of the background. -/
  screen : ∀ column < 256, ∀ line < 240,
    (p.afterAll events).screen.read (line * 256 + column) = c.light column line
  /-- The flag has been set if and only if the first sprite of all has shown on a solid
  background, outside of the last column. -/
  hit : (p.afterAll events).spriteZeroHit = true ↔ ∃ column < 255, ∃ line < 240,
    c.scene.winner column line = some 0 ∧ c.solid column line = true

/-- The sprite pixel while the frame is underway. -/
theorem Underway.spritePixel? {top p : PictureUnit} {board : Board} {n : Nat}
    (h : Underway top board n p) (htop : AtTop top) (hline : p.beam.line.toNat < 240)
    (hdot : p.beam.dot.toNat < 256) :
    (p.spritePixel? (p.beam.dot.toNat < 8) (.ofNat p.beam.dot.toNat)).map Scene.seenSlot =
      ((compositeOf top board).scene.winner p.beam.dot.toNat p.beam.line.toNat).map
        ((compositeOf top board).scene.seen p.beam.dot.toNat p.beam.line.toNat) := by
  have hsprites := h.composing.selecting.holds hline (Nat.le_of_lt hdot)
  have hcolumn : (UInt32.ofNat p.beam.dot.toNat).toNat = p.beam.dot.toNat := by
    rw [UInt32.toNat_ofNat']
    omega
  have hpixel := Composite.spritePixel?_eq (htop.shows board) h.composing.held hsprites
    (hcolumn.symm ▸ hdot) (p.beam.dot.toNat < 8)
  rw [hcolumn] at hpixel
  exact hpixel

/-- **A frame is composed by the rule.** It is drawn with nobody at the registers,
from the line before the picture on, and may begin with any position, any sprites and
any patterns. -/
theorem screen_eq_composite (p : PictureUnit) (board : Board) (events : List Event)
    (htop : AtTop p)
    (hboards : ∀ b, .dot b ∈ events →
      b.mirroring = board.mirroring ∧ ∀ address, b.readPattern address = board.readPattern address)
    (hdots : dots events = 241 * 341 - p.beam.odd.toNat) :
    (compositeOf p board).DrawnBy p events := by
  have hstart := Underway.start htop board
  have hleft := hstart.count
  have hbefore {before : List Event} (hbegins : before <+: events) :
      Underway p board (0 + dots before) (p.afterAll before) :=
    hstart.afterAll htop before (fun b hb => hboards b (hbegins.subset hb))
      (Nat.le_trans (dots_le_of_begins hbegins) (by omega))
  have hrun := hbefore (List.prefix_refl events)
  -- no dot is left, so the beam is behind the picture and all points are drawn
  have hnone := Beam.dotsLeft_pos hrun.composing.onPicture
  have hcount := hrun.count
  have hplace := hrun.composing.inFrame
  have hline : (p.afterAll events).beam.line.toNat = 240 := by omega
  have hdot : (p.afterAll events).beam.dot.toNat = 0 := by omega
  have hdrawn : drawn (p.afterAll events).beam.line.toNat (p.afterAll events).beam.dot.toNat =
      240 * 256 := by
    rw [hline, hdot]
    rfl
  refine ⟨?_, ?_, ⟨UInt16.toNat_inj.1 hline, UInt16.toNat_inj.1 hdot⟩, ?_, ?_⟩
  · rintro before hbegins column hcolumn line hrow rfl rfl
    exact (hbefore hbegins).spritePixel? htop hrow hcolumn
  · rintro before hbegins column hcolumn rfl hon
    have hzero : (p.afterAll before).beam.line.toNat = 0 := congrArg UInt16.toNat hon
    have hpixel := (hbefore hbegins).spritePixel? htop (by omega) hcolumn
    rw [hzero, Scene.winner_zero] at hpixel
    exact Option.map_eq_none_iff.1 hpixel
  · intro column hcolumn line hrow
    have hpainted := hrun.composing.painted (line * 256 + column)
    have hmod : (line * 256 + column) % 256 = column := by omega
    have hdiv : (line * 256 + column) / 256 = line := by omega
    rw [hdrawn, hmod, hdiv] at hpainted
    exact hpainted (by omega)
  · have hhit := hrun.composing.hit (by omega)
    rw [hdrawn] at hhit
    exact hhit.trans Composite.met_all

/-- A short frame of tall sprites, with the interrupt taken first. -/
theorem screen_eq_composite_tall :
    let board := Board.ofCartridge (.minimal .linear)
    let p : PictureUnit := { PictureUnit.powerOn with
      mask := 0x1E
      control := 0x20
      beam := { line := 261, dot := 0, frame := 0, odd := true }
      sprites := (Memory.filled 0xF8).writeAll 0 [30, 2, 0x40, 100] }
    (compositeOf p board).DrawnBy p (.takeNmi :: List.replicate 82180 (.dot board)) := by
  refine screen_eq_composite _ _ _
    ⟨rfl, rfl, by decide, by decide, by decide, by decide⟩ ?_ ?_
  · intro b hb
    cases hb with
    | tail _ hb =>
        obtain rfl := Event.dot.inj (List.eq_of_mem_replicate hb)
        exact ⟨rfl, fun _ => rfl⟩
  · rw [dots, dots_replicate]
    rfl

/-! ## Scrolled backgrounds -/

/-- The dots that are left tell where the beam is. -/
theorem Beam.place_of_dotsLeft {b : Beam} (line dot : Nat)
    (hplace : b.dot.toNat ≤ 340 ∧
      (b.line.toNat = 261 ∨ b.line.toNat < 240 ∨ b.line.toNat = 240 ∧ b.dot.toNat = 0))
    (hlate : b.NotLate) (hline : line < 240) (hdot : dot ≤ 340)
    (h : b.dotsLeft = (240 - line) * 341 - dot) : b.line.toNat = line ∧ b.dot.toNat = dot := by
  unfold Beam.dotsLeft at h
  by_cases hpre : b.line.toNat = 261
  · -- on the line before the picture more dots are left
    rw [if_pos hpre] at h
    have hroom : b.dot.toNat + b.odd.toNat ≤ 340 := by
      cases hodd : b.odd with
      | false => exact hplace.1
      | true => exact Nat.succ_le_succ (hlate hodd hpre)
    omega
  · rw [if_neg hpre] at h
    omega

/-- Where the scroll position is in the world, the background of a composed picture
is a look-up in the world. -/
theorem backgroundAt_eq_lookup (p : PictureUnit) (board : Board) {right lower x y column line : Nat}
    (hright : right < 2) (hlower : lower < 2) (hx : x < 256) (hy : y < 240) (htop : AtTop p)
    (hposition : p.scroll.t = origin right lower x y) (hfine : p.scroll.fineX.toNat = x % 8)
    (hcolumn : column < 256) (hline : line < 240) :
    p.backgroundAt board column line =
      4 * (worldOf p board).quadrant ((256 * right + x + column) % 512)
          ((240 * lower + y + line) % 480) +
        (worldOf p board).value ((256 * right + x + column) % 512)
          ((240 * lower + y + line) % 480) := by
  have hstart : AtStart p.withoutSprites right lower x y := by
    refine ⟨htop.line, htop.dot, ?_, ?_, ?_, hposition, hfine⟩
    · exact (PictureUnit.hasBits_and rfl).trans htop.background
    · exact (PictureUnit.hasBits_and rfl).trans htop.backgroundLeft
    · rw [PictureUnit.withoutSprites, hasBits, UInt8.and_assoc]
      show (p.mask &&& 0 != 0) = false
      rw [UInt8.and_zero]
      rfl
  have hparity : p.beam.odd.toNat ≤ 1 := Bool.toNat_le _
  have hcount : p.withoutSprites.beam.dotsLeft = 241 * 341 - p.beam.odd.toNat := hstart.dotsLeft
  have hs := hstart.shows board hright hlower hx hy
  obtain ⟨hshowing, hsum⟩ := Still.afterAll_showing hs
    (List.replicate (341 - p.beam.odd.toNat + 341 * line + column) (.dot board))
    (fun b hb => by
      obtain rfl := Event.dot.inj (List.eq_of_mem_replicate hb)
      exact ⟨rfl, fun _ => rfl⟩)
    (hstart.showing board hright hlower hx hy) (by rw [dots_replicate]; omega)
  rw [dots_replicate, hcount] at hsum
  simp only [PictureUnit.backgroundAt, PictureUnit.backgroundOnly]
  generalize p.withoutSprites.afterAll _ = q at hshowing hsum
  obtain ⟨hrow, hdot⟩ := Beam.place_of_dotsLeft line column hshowing.stage.place
    hshowing.late hline (by omega) (by omega)
  obtain ⟨tile, fine, hplace, hlt, hfetching⟩ :=
    hshowing.stage.fetching_of_visible (by omega) (by omega)
  have hcorner : 8 * (32 * right + x / 8) + x % 8 = 256 * right + x := by omega
  rw [hfetching.pixel hs hlt hshowing.held.fine, ← hplace, hrow, hdot]
  show 4 * (worldOf p board).quadrant ((8 * (32 * right + x / 8) + x % 8 + column) % 512) _ +
    (worldOf p board).value ((8 * (32 * right + x / 8) + x % 8 + column) % 512) _ = _
  rw [hcorner]
  rfl

end Famicom.Video
