import Famicom.Proofs.Video.Pipeline

/-!
# The stages of a line

From the line before the picture on, the beam goes through a line in stages: the
visible dots (`Stage.drawing`), the way back to the left edge
(`Stage.returned`), the first two tiles of the next line (`Stage.fetching`), and
the rest, in which nothing happens (`Stage.ready`). A dot draws, fetches and moves
the position (`PictureUnit.view_tick`), and so leads from a stage to the next
(`Still.stage_dot`).
-/

namespace Famicom.Video

open Cartridge Scroll Word

/-! ## Dots -/

/-- What a dot of background depends on, and what it changes. -/
structure View where
  mask : UInt8
  control : UInt8
  scroll : Scroll
  beam : Beam
  tile : TileFetch
  nametables : Memory UInt8 0x1000
  palette : Memory UInt8 32
  screen : Memory UInt32 61440

namespace PictureUnit

/-- Everything but sprites, interrupts and the registers of data accesses. -/
def view (p : PictureUnit) : View :=
  { mask := p.mask, control := p.control, scroll := p.scroll, beam := p.beam, tile := p.tile
    nametables := p.nametables, palette := p.palette, screen := p.screen }

variable {p : PictureUnit} {b : Board}

theorem view_takeNmi (p : PictureUnit) : p.takeNmi.2.view = p.view := by
  unfold takeNmi
  split <;> rfl

theorem view_updateSelection (b : Board) (p : PictureUnit) :
    (p.updateSelection b).view = p.view := by
  unfold updateSelection
  split
  · split <;> rfl
  · rfl

theorem view_updateFlags (p : PictureUnit) : p.updateFlags.view = p.view := by
  unfold updateFlags
  split
  · split
    · rfl
    split <;> rfl
  · rfl

/-- The drawing that belongs to a dot. -/
def drawStep (p : PictureUnit) : PictureUnit :=
  if p.beam.onVisibleLine && p.beam.onVisibleDot then p.drawPixel else p

/-- The fetching that belongs to a dot. -/
def fetchStep (b : Board) (p : PictureUnit) : PictureUnit :=
  if p.beam.onFetchDot then p.fetchTile b else p

theorem drawStep_visible (hline : p.beam.line.toNat < 240)
    (hdot : 1 ≤ p.beam.dot.toNat ∧ p.beam.dot.toNat ≤ 256) : p.drawStep = p.drawPixel :=
  if_pos (Beam.visible_iff.2 ⟨hline, hdot⟩)

theorem drawStep_hidden
    (h : ¬ (p.beam.line.toNat < 240 ∧ 1 ≤ p.beam.dot.toNat ∧ p.beam.dot.toNat ≤ 256)) :
    p.drawStep = p :=
  if_neg fun hvisible => h (Beam.visible_iff.1 hvisible)

theorem fetchStep_fetch
    (h : 1 ≤ p.beam.dot.toNat ∧ p.beam.dot.toNat ≤ 256 ∨
      321 ≤ p.beam.dot.toNat ∧ p.beam.dot.toNat ≤ 336) :
    p.fetchStep b = p.fetchTile b := by
  have hfetch : p.beam.onFetchDot = true := by
    simpa [Beam.onFetchDot, Beam.onVisibleDot, UInt16.le_iff_toNat_le] using h
  rw [fetchStep, if_pos hfetch]

theorem fetchStep_idle
    (h : ¬ (1 ≤ p.beam.dot.toNat ∧ p.beam.dot.toNat ≤ 256 ∨
      321 ≤ p.beam.dot.toNat ∧ p.beam.dot.toNat ≤ 336)) :
    p.fetchStep b = p := by
  have hfetch : ¬ p.beam.onFetchDot = true := by
    simpa [Beam.onFetchDot, Beam.onVisibleDot, UInt16.le_iff_toNat_le] using h
  rw [fetchStep, if_neg hfetch]

theorem fetchTile_beam (p : PictureUnit) (b : Board) : (p.fetchTile b).beam = p.beam := by
  unfold fetchTile
  simp only []
  split <;> rfl

theorem moveScroll_down (h : p.beam.dot.toNat = 256) :
    p.moveScroll = { p with scroll := { p.scroll with v := nextRow p.scroll.v } } := by
  have hdot : p.beam.dot = 256 := UInt16.toNat_inj.1 h
  simp only [moveScroll, hdot, beq_self_eq_true, if_true]

theorem moveScroll_left (h : p.beam.dot.toNat = 257) :
    p.moveScroll =
      { p with scroll := { p.scroll with v := copyHorizontal p.scroll.v p.scroll.t } } := by
  have hdot : p.beam.dot = 257 := UInt16.toNat_inj.1 h
  simp [moveScroll, hdot]

theorem moveScroll_top (hline : p.beam.line.toNat = 261) (hlow : 280 ≤ p.beam.dot.toNat)
    (hhigh : p.beam.dot.toNat ≤ 304) :
    p.moveScroll =
      { p with scroll := { p.scroll with v := copyVertical p.scroll.v p.scroll.t } } := by
  have hline : p.beam.line = 261 := UInt16.toNat_inj.1 hline
  have hdown : ¬ p.beam.dot = 256 := fun h => absurd (h ▸ hlow) (by decide)
  have hleft : ¬ p.beam.dot = 257 := fun h => absurd (h ▸ hlow) (by decide)
  simp [moveScroll, hdown, hleft, hline, preRenderLine, UInt16.le_iff_toNat_le, hlow, hhigh]

theorem moveScroll_idle (hdown : p.beam.dot.toNat ≠ 256) (hleft : p.beam.dot.toNat ≠ 257)
    (htop : ¬ (p.beam.line.toNat = 261 ∧ 280 ≤ p.beam.dot.toNat ∧ p.beam.dot.toNat ≤ 304)) :
    p.moveScroll = p := by
  have hdown : ¬ p.beam.dot = 256 := fun h => hdown (congrArg UInt16.toNat h)
  have hleft : ¬ p.beam.dot = 257 := fun h => hleft (congrArg UInt16.toNat h)
  have htop : ¬ (p.beam.line = 261 ∧ 280 ≤ p.beam.dot ∧ p.beam.dot ≤ 304) := by
    rw [← UInt16.toNat_inj, UInt16.le_iff_toNat_le, UInt16.le_iff_toNat_le]
    exact htop
  simp only [moveScroll, beq_iff_eq, hdown, hleft, preRenderLine, Bool.and_eq_true,
    decide_eq_true_eq, and_assoc, htop, if_false]

/-- While something is shown a dot draws, fetches and moves the position. -/
theorem view_tick (hrendering : p.advance.rendering = true)
    (hplace : p.advance.beam.line.toNat < 240 ∨ p.advance.beam.line.toNat = 261 ∨
      p.advance.beam.dot.toNat = 0) :
    (p.tick b).view = (moveScroll ((p.advance.drawStep).fetchStep b)).view := by
  have htick : (p.tick b).view = (p.advance.render b).view := by
    unfold tick
    simp only []
    rw [view_updateFlags, if_pos hrendering]
  rw [htick, render]
  by_cases hline : (p.advance.beam.onVisibleLine || p.advance.beam.line == preRenderLine) = true
  · rw [if_pos hline]
    simp only []
    rw [view_updateSelection]
    rfl
  · -- nothing happens on the other lines, nor in the first dot of a line
    have hdot : p.advance.beam.dot.toNat = 0 := by
      simp only [Beam.onVisibleLine, preRenderLine, Bool.or_eq_true, decide_eq_true_eq, beq_iff_eq,
        UInt16.lt_iff_toNat_lt, ← UInt16.toNat_inj, UInt16.reduceToNat] at hline
      omega
    rw [if_neg hline, view_updateSelection, drawStep_hidden (by omega), fetchStep_idle (by omega),
      moveScroll_idle (by omega) (by omega) (by omega)]

end PictureUnit

/-! ## Stages -/

/-- The line on which the first tiles of line `n` are fetched. -/
def Precedes (line n : Nat) : Prop := line = 261 ∧ n = 0 ∨ line < 240 ∧ n = line + 1

/-- How far the pipeline has come when the beam is at a place. -/
inductive Stage (s : Still) : (line dot : Nat) → (v : UInt16) → (t : TileFetch) → Prop
  /-- Nothing is known before the position is taken over. -/
  | waiting {dot v t} : dot ≤ 256 → Stage s 261 dot v t
  /-- The column has been taken over. -/
  | left {dot v t} : 257 ≤ dot → dot < 280 → AtColumn v s.column → Stage s 261 dot v t
  /-- The position is at the left edge of the next line. -/
  | returned {line n dot v t} :
      Precedes line n → 257 ≤ dot → (line = 261 → 280 ≤ dot) → dot ≤ 320 →
      Scroll.At v (s.columnOf 0) (s.lineOf n) → Stage s line dot v t
  /-- The first two tiles of the next line are fetched. -/
  | fetching {line n dot m r v t} :
      Precedes line n → dot = 320 + 8 * m + r → m < 2 → r < 8 → Fetching s n m r v t →
      Stage s line dot v t
  /-- Both of them are there. -/
  | ready {line n dot v t} :
      Precedes line n → 336 ≤ dot → dot ≤ 340 → Fetching s n 2 0 v t → Stage s line dot v t
  /-- The line is drawn. -/
  | drawing {y dot q r v t} :
      y < 240 → dot = 8 * q + r → q < 32 → r < 8 → Fetching s y (q + 2) r v t →
      Stage s y dot v t
  /-- The position has gone down to the next line. -/
  | edge {y v t} : y < 240 → AtLine v (s.lineOf (y + 1)) → Stage s y 256 v t
  /-- The picture is complete. -/
  | complete {v t} : Stage s 240 0 v t

/-- Where the beam goes in a dot. The line before the picture may be short. -/
inductive Next : (line dot line' dot' : Nat) → Prop
  | right {line dot} : dot < 340 → Next line dot line (dot + 1)
  | down {line} : line < 261 → Next line 340 (line + 1) 0
  | top {dot} : 339 ≤ dot → dot ≤ 340 → Next 261 dot 0 0

namespace Stage

variable {s : Still} {line dot : Nat} {v : UInt16} {t : TileFetch}

/-- The stages are places before the picture or on it, or the end of it. -/
theorem place (h : Stage s line dot v t) :
    dot ≤ 340 ∧ (line = 261 ∨ line < 240 ∨ line = 240 ∧ dot = 0) := by
  cases h with
  | waiting hle => omega
  | left hlow hhigh hcolumn => omega
  | returned hprecedes hlow htop hhigh hposition =>
      unfold Precedes at hprecedes
      omega
  | fetching hprecedes hplace hm hr hfetching =>
      unfold Precedes at hprecedes
      omega
  | ready hprecedes hlow hhigh hfetching =>
      unfold Precedes at hprecedes
      omega
  | drawing hy hplace hq hr hfetching => omega
  | edge hy hdown => omega
  | complete => omega

/-- In the visible part of a line two rows are there. -/
theorem fetching_of_visible (h : Stage s line dot v t) (hline : line < 240) (hdot : dot < 256) :
    ∃ q r, dot = 8 * q + r ∧ r < 8 ∧ Fetching s line (q + 2) r v t := by
  cases h with
  | @drawing _ _ q r _ _ hy hplace hq hr hfetching => exact ⟨q, r, hplace, hr, hfetching⟩
  | _ => omega

end Stage

theorem Next.place {line dot line' dot' : Nat} (h : Next line dot line' dot')
    (hline : line = 261 ∨ line < 240) : line' < 240 ∨ line' = 261 ∨ dot' = 0 := by
  cases h with
  | right hlt => omega
  | down hlt => omega
  | top hlow hhigh => omega

namespace Still

variable {s : Still} {p : PictureUnit} {b : Board}

theorem columnOf_zero (hs : s.Shows) : s.columnOf 0 = s.column :=
  Nat.mod_eq_of_lt hs.column_lt

theorem lineOf_zero (hs : s.Shows) : s.lineOf 0 = s.line :=
  Nat.mod_eq_of_lt hs.line_lt

/-- At the beginning of a line the next stage is the drawing of the line. -/
theorem stage_nextLine {line dot n : Nat} {v : UInt16} {t : TileFetch} (h : Precedes line n)
    (hready : Fetching s n 2 0 v t) {line' : Nat} (hnext : Next line dot line' 0) :
    Stage s line' 0 v t := by
  obtain ⟨rfl, rfl⟩ | ⟨hline, rfl⟩ := h
  · cases hnext with
    | down hlt => omega
    | top hlow hhigh => exact .drawing (q := 0) (r := 0) (by omega) rfl (by omega) (by omega) hready
  · cases hnext with
    | down hlt =>
        by_cases hlast : line + 1 = 240
        · rw [hlast]
          exact .complete
        · exact .drawing (q := 0) (r := 0) (by omega) rfl (by omega) (by omega) hready
    | top hlow hhigh => omega

/-- A dot of fetching leads to the next dot of the tile or to the next tile. -/
theorem fetching_dot {y m r : Nat} (h : Fetching s y m r p.scroll.v p.tile) (hp : s.Held p)
    (hb : s.Shown b) (hr : r < 8) (hdot : p.beam.dot.toNat % 8 = (r + 1) % 8) :
    (r < 7 ∧ Fetching s y m (r + 1) (p.fetchTile b).scroll.v (p.fetchTile b).tile) ∨
      (r = 7 ∧ Fetching s y (m + 1) 0 (p.fetchTile b).scroll.v (p.fetchTile b).tile) := by
  by_cases hlast : r = 7
  · subst hlast
    exact .inr ⟨rfl, h.store hdot⟩
  · exact .inl ⟨by omega, h.fetchTile hp hb (by omega) (by omega)⟩

/-- Where the beam moves no position, a fetch is all there is. -/
theorem moveScroll_fetchTile (hdown : p.beam.dot.toNat ≠ 256) (hleft : p.beam.dot.toNat ≠ 257)
    (htop : p.beam.dot.toNat < 280 ∨ 304 < p.beam.dot.toNat) :
    (p.fetchTile b).moveScroll = p.fetchTile b := by
  have hbeam := p.fetchTile_beam b
  refine PictureUnit.moveScroll_idle ?_ ?_ ?_
  · rw [hbeam]
    exact hdown
  · rw [hbeam]
    exact hleft
  · rw [hbeam]
    omega

/-! ### One dot at each stage -/

section Dots

variable {line dot line' dot' n : Nat}

theorem waiting_dot (hp : s.Held p) (hle : dot ≤ 256) (hnext : Next 261 dot line' dot')
    (hdot : p.beam.dot.toNat = dot') :
    Stage s line' dot' ((p.fetchStep b).moveScroll).scroll.v ((p.fetchStep b).moveScroll).tile := by
  cases hnext with
  | down hlt => omega
  | top hlow hhigh => omega
  | right hlt =>
      by_cases hedge : dot = 256
      · rw [PictureUnit.fetchStep_idle (by omega), PictureUnit.moveScroll_left (by omega)]
        exact .left (by omega) (by omega) (atColumn_copyHorizontal hp.column _)
      · exact .waiting (by omega)

theorem left_dot (hs : s.Shows) (hp : s.Held p) (hlow : 257 ≤ dot) (hhigh : dot < 280)
    (hcolumn : AtColumn p.scroll.v s.column) (hnext : Next 261 dot line' dot')
    (hline : p.beam.line.toNat = line') (hdot : p.beam.dot.toNat = dot') :
    Stage s line' dot' ((p.fetchStep b).moveScroll).scroll.v ((p.fetchStep b).moveScroll).tile := by
  cases hnext with
  | down hlt => omega
  | top hlow' hhigh' => omega
  | right hlt =>
      rw [PictureUnit.fetchStep_idle (by omega)]
      by_cases htop : dot = 279
      · rw [PictureUnit.moveScroll_top hline (by omega) (by omega)]
        refine .returned (n := 0) (.inl ⟨rfl, rfl⟩) (by omega) (by omega) (by omega) ?_
        rw [columnOf_zero hs, lineOf_zero hs]
        exact ⟨hcolumn.copyVertical _, atLine_copyVertical hp.line _, hs.column_lt, hs.line_lt⟩
      · rw [PictureUnit.moveScroll_idle (by omega) (by omega) (by omega)]
        exact .left (by omega) (by omega) hcolumn

theorem returned_dot (hs : s.Shows) (hp : s.Held p) (hb : s.Shown b) (hprecedes : Precedes line n)
    (hlow : 257 ≤ dot) (htop : line = 261 → 280 ≤ dot) (hhigh : dot ≤ 320)
    (hposition : Scroll.At p.scroll.v (s.columnOf 0) (s.lineOf n))
    (hnext : Next line dot line' dot') (hline : p.beam.line.toNat = line')
    (hdot : p.beam.dot.toNat = dot') :
    Stage s line' dot' ((p.fetchStep b).moveScroll).scroll.v ((p.fetchStep b).moveScroll).tile := by
  cases hnext with
  | down hlt => omega
  | top hlow' hhigh' => omega
  | right hlt =>
      by_cases hend : dot = 320
      · have hstart := Fetching.start hposition p.tile
        rw [PictureUnit.fetchStep_fetch (by omega)]
        obtain ⟨-, hfetched⟩ | ⟨hr, -⟩ := fetching_dot hstart hp hb (by omega) (by omega)
        · rw [moveScroll_fetchTile (by omega) (by omega) (by omega)]
          exact .fetching hprecedes (by omega) (by omega) (by omega) hfetched
        · omega
      rw [PictureUnit.fetchStep_idle (by omega)]
      by_cases hcopy : line = 261 ∧ dot < 304
      · -- the line is taken over again and again, and is the same every time
        obtain ⟨hn, hzero⟩ | ⟨hvisible, -⟩ := hprecedes
        · rw [PictureUnit.moveScroll_top (by omega) (by omega) (by omega)]
          refine .returned (.inl ⟨hn, hzero⟩) (by omega) (by omega) (by omega) ?_
          obtain ⟨hcolumn, -, hc, hl⟩ := hposition
          refine ⟨hcolumn.copyVertical _, ?_, hc, hl⟩
          rw [hzero, lineOf_zero hs]
          exact atLine_copyVertical hp.line _
        · omega
      · rw [PictureUnit.moveScroll_idle (by omega) (by omega) (by omega)]
        exact .returned hprecedes (by omega) (by omega) (by omega) hposition

theorem ahead_dot {m r : Nat} (hp : s.Held p) (hb : s.Shown b) (hprecedes : Precedes line n)
    (hplace : dot = 320 + 8 * m + r) (hm : m < 2) (hr : r < 8)
    (hfetching : Fetching s n m r p.scroll.v p.tile) (hnext : Next line dot line' dot')
    (hdot : p.beam.dot.toNat = dot') :
    Stage s line' dot' ((p.fetchStep b).moveScroll).scroll.v ((p.fetchStep b).moveScroll).tile := by
  cases hnext with
  | down hlt => omega
  | top hlow hhigh => omega
  | right hlt =>
      rw [PictureUnit.fetchStep_fetch (by omega),
        moveScroll_fetchTile (by omega) (by omega) (by omega)]
      obtain ⟨hbefore, hfetched⟩ | ⟨hlast, hstored⟩ := fetching_dot hfetching hp hb hr (by omega)
      · exact .fetching hprecedes (by omega) hm (by omega) hfetched
      · by_cases hsecond : m = 1
        · subst hsecond
          exact .ready hprecedes (by omega) (by omega) hstored
        · exact .fetching hprecedes (by omega) (by omega) (by omega) hstored

theorem ready_dot (hprecedes : Precedes line n) (hlow : 336 ≤ dot) (hhigh : dot ≤ 340)
    (hfetching : Fetching s n 2 0 p.scroll.v p.tile) (hnext : Next line dot line' dot')
    (hdot : p.beam.dot.toNat = dot') :
    Stage s line' dot' ((p.fetchStep b).moveScroll).scroll.v ((p.fetchStep b).moveScroll).tile := by
  have hidle : dot' = 0 ∨ 337 ≤ dot' := by cases hnext <;> omega
  rw [PictureUnit.fetchStep_idle (by omega),
    PictureUnit.moveScroll_idle (by omega) (by omega) (by omega)]
  cases hnext with
  | right hlt => exact .ready hprecedes (by omega) (by omega) hfetching
  | down hlt => exact stage_nextLine hprecedes hfetching (.down hlt)
  | top hlow' hhigh' => exact stage_nextLine hprecedes hfetching (.top hlow' hhigh')

theorem drawing_dot {q r : Nat} (hp : s.Held p) (hb : s.Shown b) (hy : line < 240)
    (hplace : dot = 8 * q + r) (hq : q < 32) (hr : r < 8)
    (hfetching : Fetching s line (q + 2) r p.scroll.v p.tile) (hnext : Next line dot line' dot')
    (hdot : p.beam.dot.toNat = dot') :
    Stage s line' dot' ((p.fetchStep b).moveScroll).scroll.v ((p.fetchStep b).moveScroll).tile := by
  cases hnext with
  | down hlt => omega
  | top hlow hhigh => omega
  | right hlt =>
      rw [PictureUnit.fetchStep_fetch (by omega)]
      obtain ⟨hbefore, hfetched⟩ | ⟨hlast, hstored⟩ := fetching_dot hfetching hp hb hr (by omega)
      · rw [moveScroll_fetchTile (by omega) (by omega) (by omega)]
        exact .drawing hy (by omega) hq (by omega) hfetched
      by_cases hedge : q = 31
      · -- the last tile of the line: the position is already that of the next line
        subst hedge
        have hend : dot + 1 = 256 := by omega
        have hbeam : (p.fetchTile b).beam.dot.toNat = 256 := by
          rw [PictureUnit.fetchTile_beam, hdot, hend]
        rw [PictureUnit.moveScroll_down hbeam, hend]
        refine .edge hy ?_
        rw [lineOf_succ]
        exact hstored.position.line.nextRow hstored.position.line_lt
      · rw [moveScroll_fetchTile (by omega) (by omega) (by omega)]
        exact .drawing hy (by omega) (by omega) (by omega) hstored

theorem edge_dot (hs : s.Shows) (hp : s.Held p) (hy : line < 240)
    (hdown : AtLine p.scroll.v (s.lineOf (line + 1))) (hnext : Next line 256 line' dot')
    (hdot : p.beam.dot.toNat = dot') :
    Stage s line' dot' ((p.fetchStep b).moveScroll).scroll.v ((p.fetchStep b).moveScroll).tile := by
  cases hnext with
  | top hlow hhigh => omega
  | right hlt =>
      rw [PictureUnit.fetchStep_idle (by omega), PictureUnit.moveScroll_left hdot]
      refine .returned (.inr ⟨hy, rfl⟩) (by omega) (by omega) (by omega) ?_
      rw [columnOf_zero hs]
      exact ⟨atColumn_copyHorizontal hp.column _, hdown.copyHorizontal _, hs.column_lt,
        lineOf_lt _⟩

/-- The stage after a dot. The position has been moved by the beam only. -/
theorem stage_dot (hs : s.Shows) (hp : s.Held p) (hb : s.Shown b)
    (h : Stage s line dot p.scroll.v p.tile) (hnext : Next line dot line' dot')
    (hmore : line ≠ 240) (hline : p.beam.line.toNat = line') (hdot : p.beam.dot.toNat = dot') :
    Stage s line' dot' ((p.fetchStep b).moveScroll).scroll.v ((p.fetchStep b).moveScroll).tile := by
  cases h with
  | waiting hle => exact waiting_dot hp hle hnext hdot
  | left hlow hhigh hcolumn => exact left_dot hs hp hlow hhigh hcolumn hnext hline hdot
  | returned hprecedes hlow htop hhigh hposition =>
      exact returned_dot hs hp hb hprecedes hlow htop hhigh hposition hnext hline hdot
  | fetching hprecedes hplace hm hr hfetching =>
      exact ahead_dot hp hb hprecedes hplace hm hr hfetching hnext hdot
  | ready hprecedes hlow hhigh hfetching =>
      exact ready_dot hprecedes hlow hhigh hfetching hnext hdot
  | drawing hy hplace hq hr hfetching =>
      exact drawing_dot hp hb hy hplace hq hr hfetching hnext hdot
  | edge hy hdown => exact edge_dot hs hp hy hdown hnext hdot
  | complete => exact absurd rfl hmore

end Dots

end Still

end Famicom.Video
