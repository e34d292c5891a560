import Famicom.Proofs.Video.World

/-!
# The background pipeline

The picture unit keeps sixteen pixels: the row of a tile that is on the screen
and the row behind it. They move by one pixel in a dot. In the eight dots of a
tile the next row but one is fetched, and at the last of them it takes the place
that has become free. So there is an invariant with two counters, the rows that
have been stored for a line and the dots since the last of them (`Fetching`):

* **steps** — a dot of fetching advances the counters (`Fetching.fetchTile`,
  `Fetching.store`);
* **pixels** — as soon as two rows are there, the pixel that comes out is a point
  of the world (`Fetching.pixel`).
-/

namespace Famicom.Video

open Cartridge Scroll Word

/-! ## Sixteen pixels -/

theorem packedPixel_shift (pixels i r : Nat) :
    packedPixel (pixels * 16 ^ r) (i + r) = packedPixel pixels i := by
  unfold packedPixel
  rw [Nat.pow_add, Nat.mul_div_mul_right _ _ (Nat.pow_pos (by decide))]

/-- Of two rows side by side the left one has the higher pixels. -/
theorem packedPixel_pair (left : Nat) {right : Nat} (h : right < 16 ^ 8) (i : Nat) :
    packedPixel (left * 16 ^ 8 + right) i =
      if i < 8 then packedPixel right i else packedPixel left (i - 8) := by
  by_cases hi : i < 8
  · have hmod : (left * 16 ^ 8 + right) % 16 ^ 8 = right := by omega
    rw [if_pos hi, ← packedPixel_mod _ hi, hmod]
  · obtain ⟨k, rfl⟩ : ∃ k, i = 8 + k := ⟨i - 8, by omega⟩
    have hdiv : (left * 16 ^ 8 + right) / 16 ^ 8 = left := by omega
    rw [if_neg hi, Nat.add_sub_cancel_left]
    unfold packedPixel
    rw [Nat.pow_add, ← Nat.div_div_eq_div_mul, hdiv]

/-- The pixel on the screen is one of the eight leftmost. -/
theorem toNat_pixel_tile (t : TileFetch) {fineX : UInt8} (hfine : fineX.toNat < 8) :
    (t.pixel fineX).toNat = packedPixel t.pixels.toNat (15 - fineX.toNat) := by
  have hlt := t.pixels.toNat_lt
  have hshift : ((7 - fineX.toUInt32) * 4).toNat = 4 * (7 - fineX.toNat) := by
    rw [UInt32.toNat_mul, UInt32.toNat_sub, UInt8.toNat_toUInt32]
    simp only [UInt32.reduceToNat]
    omega
  have hsmall : 4 * (7 - fineX.toNat) % 32 = 4 * (7 - fineX.toNat) := by omega
  have hupper : (t.pixels >>> 32).toUInt32.toNat = t.pixels.toNat / 2 ^ 32 := by
    rw [UInt64.toNat_toUInt32, UInt64.toNat_shiftRight, Nat.shiftRight_eq_div_pow]
    simp only [UInt64.reduceToNat, Nat.reduceMod]
    omega
  have hpow : 15 - fineX.toNat = 8 + (7 - fineX.toNat) := by omega
  unfold TileFetch.pixel packedPixel
  rw [Byte.toNat_and_low _ 4 rfl, UInt32.toNat_toUInt8, UInt32.toNat_shiftRight, hupper, hshift,
    hsmall, Nat.shiftRight_eq_div_pow, hpow, Nat.pow_add, ← Nat.div_div_eq_div_mul, Nat.pow_mul]
  exact Nat.mod_mod_of_dvd _ (by decide)

/-- Two rows side by side that have moved to the left by `r` pixels. -/
def Window (left right : UInt32) (r : Nat) (pixels : UInt64) : Prop :=
  pixels.toNat = (left.toNat * 16 ^ 8 + right.toNat) * 16 ^ r % 16 ^ 16

/-- Any sixteen pixels are two rows. -/
theorem exists_window (pixels : UInt64) : ∃ left right, Window left right 0 pixels := by
  have hlt := pixels.toNat_lt
  refine ⟨.ofNat (pixels.toNat / 2 ^ 32), .ofNat (pixels.toNat % 2 ^ 32), ?_⟩
  simp only [Window, UInt32.toNat_ofNat']
  omega

namespace Window

variable {left right : UInt32} {r : Nat} {pixels : UInt64}

theorem shift (h : Window left right r pixels) : Window left right (r + 1) (pixels <<< 4) := by
  have hshift : (pixels <<< 4).toNat = pixels.toNat * 16 % 16 ^ 16 := by
    rw [UInt64.toNat_shiftLeft, Nat.shiftLeft_eq]
    rfl
  rw [Window, hshift, h, Nat.mod_mul_mod, Nat.mul_assoc, ← Nat.pow_succ]

/-- After eight dots the left row is gone, and there is room for another one. -/
theorem store (h : Window left right 8 pixels) (row : UInt32) :
    Window right row 0 (pixels ||| row.toUInt64) := by
  have hleft := left.toNat_lt
  have hright := right.toNat_lt
  have hrow := row.toNat_lt
  have hpixels : pixels.toNat = right.toNat <<< 32 := by
    rw [h, Nat.shiftLeft_eq]
    omega
  rw [Window, UInt64.toNat_or, hpixels, UInt32.toNat_toUInt64, ← Nat.shiftLeft_add_eq_or_of_lt hrow,
    Nat.shiftLeft_eq]
  omega

/-- The pixel on the screen comes from the left row, or from the right one if the
dots since the last row and the column within the tile together reach it. -/
theorem pixel {t : TileFetch} (h : Window left right r t.pixels) {fineX : UInt8} (hr : r < 8)
    (hfine : fineX.toNat < 8) :
    (t.pixel fineX).toNat =
      if fineX.toNat + r < 8 then packedPixel left.toNat (7 - (fineX.toNat + r))
      else packedPixel right.toNat (15 - (fineX.toNat + r)) := by
  have hmoved : 15 - fineX.toNat = 15 - (fineX.toNat + r) + r := by omega
  rw [toNat_pixel_tile t hfine, h, packedPixel_mod _ (by omega), hmoved, packedPixel_shift,
    packedPixel_pair _ right.toNat_lt]
  by_cases hleft : fineX.toNat + r < 8
  · have hindex : 15 - (fineX.toNat + r) - 8 = 7 - (fineX.toNat + r) := by omega
    rw [if_pos hleft, if_neg (by omega), hindex]
  · rw [if_neg hleft, if_pos (by omega)]

end Window

/-! ## Still backgrounds -/

/-- A background that does not change while it is drawn: a world, the mask it is
shown under, and where the upper left corner of the screen lies. -/
structure Still where
  world : World
  mask : UInt8
  /-- The tile column of the corner. -/
  column : Nat
  /-- The line of the corner. -/
  line : Nat
  /-- The column of the corner within its tile. -/
  fine : Nat

namespace Still

variable (s : Still)

/-- The tile column of the world behind the one of the corner, with `j` columns
between them. -/
def columnOf (j : Nat) : Nat := (s.column + j) % worldColumns

/-- The line of the world on line `y` of the screen. -/
def lineOf (y : Nat) : Nat := (s.line + y) % worldLines

/-- The row of the tile in a column, on a line of the screen. -/
def row (y j : Nat) : UInt32 := s.world.row (s.columnOf j) (s.lineOf y)

/-- The column of the world in column `x` of the screen. -/
def pointOf (x : Nat) : Nat := (8 * s.column + s.fine + x) % 512

/-- The light of a point of the screen, looked up in the world. -/
def light (x y : Nat) : UInt32 := shade s.mask (s.world.colour (s.pointOf x) (s.lineOf y))

/-- The background is shown and sprites are not, and the corner is in the
world. -/
structure Shows : Prop where
  background : hasBits s.mask maskBackground = true
  left : hasBits s.mask maskBackgroundLeft = true
  sprites : hasBits s.mask maskSprites = false
  column_lt : s.column < worldColumns
  line_lt : s.line < worldLines
  fine_lt : s.fine < 8

/-- What a picture unit has to hold throughout. -/
structure Held (p : PictureUnit) : Prop where
  nametables : p.nametables = s.world.nametables
  palette : p.palette = s.world.palette
  upper : hasBits p.control 0x10 = s.world.upper
  mask : p.mask = s.mask
  column : AtColumn p.scroll.t s.column
  line : AtLine p.scroll.t s.line
  fine : p.scroll.fineX.toNat = s.fine

/-- What a board has to show throughout. -/
structure Shown (b : Board) : Prop where
  mirroring : b.mirroring = s.world.mirroring
  pattern : ∀ address, b.readPattern address = s.world.pattern address

variable {s}

theorem columnOf_lt (j : Nat) : s.columnOf j < worldColumns := Nat.mod_lt _ (by decide)

theorem lineOf_lt (y : Nat) : s.lineOf y < worldLines := Nat.mod_lt _ (by decide)

theorem columnOf_succ (j : Nat) : s.columnOf (j + 1) = (s.columnOf j + 1) % worldColumns := by
  rw [columnOf, columnOf, Nat.mod_add_mod, Nat.add_assoc]

theorem lineOf_succ (y : Nat) : s.lineOf (y + 1) = (s.lineOf y + 1) % worldLines := by
  rw [lineOf, lineOf, Nat.mod_add_mod, Nat.add_assoc]

/-- Drawing and fetching touch nothing of it. -/
theorem Held.update {p : PictureUnit} (h : s.Held p) (beam : Beam) (nmi : NmiLine) (v : UInt16)
    (tile : TileFetch) (screen : Memory UInt32 61440) :
    s.Held { p with beam, nmi, tile, screen, scroll := { p.scroll with v } } :=
  ⟨h.nametables, h.palette, h.upper, h.mask, h.column, h.line, h.fine⟩

theorem Held.shown {p : PictureUnit} (h : s.Held p) {b : Board} (hb : s.Shown b) :
    s.world.Shown p b :=
  ⟨h.nametables, h.upper, hb.mirroring, hb.pattern⟩

end Still

/-! ## Fetching -/

namespace PictureUnit

variable {p : PictureUnit} {b : Board}

theorem fetchTile_name (h : p.beam.dot % 8 = 1) :
    p.fetchTile b = { p with tile := { p.tile.shift with
      name := p.fetch b (TileFetch.nameAddress p.scroll.v) } } := by
  simp only [fetchTile, h]

theorem fetchTile_palette (h : p.beam.dot % 8 = 3) :
    p.fetchTile b = { p with tile := { p.tile.shift with
      palette := TileFetch.quarter p.scroll.v
        (p.fetch b (TileFetch.attributeAddress p.scroll.v)) } } := by
  simp only [fetchTile, h]

theorem fetchTile_low (h : p.beam.dot % 8 = 5) :
    p.fetchTile b = { p with tile := { p.tile.shift with
      low := p.fetch b (p.tile.shift.patternAddress p.backgroundTable p.scroll.v) } } := by
  simp only [fetchTile, h]

theorem fetchTile_high (h : p.beam.dot % 8 = 7) :
    p.fetchTile b = { p with tile := { p.tile.shift with
      high := p.fetch b (p.tile.shift.patternAddress p.backgroundTable p.scroll.v + 8) } } := by
  simp only [fetchTile, h]

theorem fetchTile_store (h : p.beam.dot % 8 = 0) :
    p.fetchTile b = { p with
      tile := p.tile.shift.store
      scroll := { p.scroll with v := Scroll.nextColumn p.scroll.v } } := by
  simp only [fetchTile, h]

/-- In the even dots the pixels move and nothing is fetched. -/
theorem fetchTile_even (h : p.beam.dot % 8 = 2 ∨ p.beam.dot % 8 = 4 ∨ p.beam.dot % 8 = 6) :
    p.fetchTile b = { p with tile := p.tile.shift } := by
  obtain h | h | h := h
  all_goals
    simp only [fetchTile, h]
    rfl

end PictureUnit

/-- The parts of a row that are there after `r` dots. -/
structure Fetched (w : World) (c l r : Nat) (t : TileFetch) : Prop where
  name : 1 ≤ r → t.name = w.name (8 * c) l
  palette : 3 ≤ r → t.palette = w.tilePalette c l
  low : 5 ≤ r → t.low = w.plane (8 * c) l 0
  high : 7 ≤ r → t.high = w.plane (8 * c) l 1

theorem fetched_zero (w : World) (c l : Nat) (t : TileFetch) : Fetched w c l 0 t :=
  ⟨fun h => absurd h (by omega), fun h => absurd h (by omega), fun h => absurd h (by omega),
    fun h => absurd h (by omega)⟩

/-- For line `y` of the screen `m` rows have been stored and the last of them `r`
dots ago. The position is that of the row that is being fetched. -/
structure Fetching (s : Still) (y m r : Nat) (v : UInt16) (t : TileFetch) : Prop where
  position : Scroll.At v (s.columnOf m) (s.lineOf y)
  fetched : Fetched s.world (s.columnOf m) (s.lineOf y) r t
  window : ∃ left right, Window left right r t.pixels ∧
    (1 ≤ m → right = s.row y (m - 1)) ∧ (2 ≤ m → left = s.row y (m - 2))

namespace Fetching

variable {s : Still} {y m r : Nat} {p : PictureUnit} {b : Board}

/-- A line begins with nothing fetched, whatever pixels are left. -/
theorem start {v : UInt16} (h : Scroll.At v (s.columnOf 0) (s.lineOf y)) (t : TileFetch) :
    Fetching s y 0 0 v t := by
  obtain ⟨left, right, hwindow⟩ := exists_window t.pixels
  exact ⟨h, fetched_zero _ _ _ t, left, right, hwindow, fun h => absurd h (by omega),
    fun h => absurd h (by omega)⟩

/-- The pixels move in every dot of fetching. -/
theorem window_shift {v : UInt16} {t t' : TileFetch} (h : Fetching s y m r v t)
    (ht : t'.pixels = t.pixels <<< 4) :
    ∃ left right, Window left right (r + 1) t'.pixels ∧
      (1 ≤ m → right = s.row y (m - 1)) ∧ (2 ≤ m → left = s.row y (m - 2)) := by
  obtain ⟨left, right, hwindow, hright, hleft⟩ := h.window
  exact ⟨left, right, ht ▸ hwindow.shift, hright, hleft⟩

theorem dot_mod {n : UInt16} (h : p.beam.dot.toNat % 8 = n.toNat) : p.beam.dot % 8 = n := by
  rw [← UInt16.toNat_inj, UInt16.toNat_mod]
  exact h

/-- A dot before the last one of a tile. In every other dot a part is fetched. -/
theorem fetchTile (h : Fetching s y m r p.scroll.v p.tile) (hp : s.Held p) (hb : s.Shown b)
    (hr : r < 7) (hdot : p.beam.dot.toNat % 8 = r + 1) :
    Fetching s y m (r + 1) (p.fetchTile b).scroll.v (p.fetchTile b).tile := by
  have hshown := hp.shown hb
  have hposition := h.position
  obtain ⟨hname, hpalette, hlow, hhigh⟩ := h.fetched
  -- name, palette, low and high bits, each from what the dots before have fetched
  have hcases : r = 0 ∨ r = 2 ∨ r = 4 ∨ r = 6 ∨ (r = 1 ∨ r = 3 ∨ r = 5) := by omega
  obtain rfl | rfl | rfl | rfl | hodd := hcases
  · rw [PictureUnit.fetchTile_name (dot_mod hdot)]
    refine ⟨hposition, ⟨?_, ?_, ?_, ?_⟩, h.window_shift rfl⟩
    · exact fun _ => hshown.name hposition
    all_goals exact fun hle => absurd hle (by omega)
  · rw [PictureUnit.fetchTile_palette (dot_mod hdot)]
    refine ⟨hposition, ⟨?_, ?_, ?_, ?_⟩, h.window_shift rfl⟩
    · exact fun _ => hname (by omega)
    · exact fun _ => hshown.palette hposition
    all_goals exact fun hle => absurd hle (by omega)
  · rw [PictureUnit.fetchTile_low (dot_mod hdot)]
    refine ⟨hposition, ⟨?_, ?_, ?_, ?_⟩, h.window_shift rfl⟩
    · exact fun _ => hname (by omega)
    · exact fun _ => hpalette (by omega)
    · intro _
      exact (hshown.plane hposition (t := p.tile.shift) (hname (by omega)) 0 (by omega)) ▸ by simp
    · exact fun hle => absurd hle (by omega)
  · rw [PictureUnit.fetchTile_high (dot_mod hdot)]
    refine ⟨hposition, ⟨?_, ?_, ?_, ?_⟩, h.window_shift rfl⟩
    · exact fun _ => hname (by omega)
    · exact fun _ => hpalette (by omega)
    · exact fun _ => hlow (by omega)
    · exact fun _ => hshown.plane hposition (t := p.tile.shift) (hname (by omega)) 1 (by omega)
  · have heven : p.beam.dot % 8 = 2 ∨ p.beam.dot % 8 = 4 ∨ p.beam.dot % 8 = 6 := by
      obtain rfl | rfl | rfl := hodd
      · exact .inl (dot_mod hdot)
      · exact .inr (.inl (dot_mod hdot))
      · exact .inr (.inr (dot_mod hdot))
    rw [PictureUnit.fetchTile_even heven]
    refine ⟨hposition, ⟨?_, ?_, ?_, ?_⟩, h.window_shift rfl⟩
    · exact fun _ => hname (by omega)
    · exact fun _ => hpalette (by omega)
    · exact fun _ => hlow (by omega)
    · exact fun _ => hhigh (by omega)

/-- The last dot of a tile: the row is complete and is stored, and the position
moves on. -/
theorem store (h : Fetching s y m 7 p.scroll.v p.tile) (hdot : p.beam.dot.toNat % 8 = 0) :
    Fetching s y (m + 1) 0 (p.fetchTile b).scroll.v (p.fetchTile b).tile := by
  obtain ⟨hcolumn, hline, hc, hl⟩ := h.position
  obtain ⟨hname, hpalette, hlow, hhigh⟩ := h.fetched
  obtain ⟨left, right, hwindow, hright, hleft⟩ := h.window
  have hrow : packRow p.tile.palette p.tile.low p.tile.high = s.row y m := by
    rw [hpalette (by omega), hlow (by omega), hhigh (by omega)]
    rfl
  rw [PictureUnit.fetchTile_store (dot_mod hdot)]
  refine ⟨⟨?_, hline.nextColumn, Still.columnOf_lt _, hl⟩, fetched_zero _ _ _ _, ?_⟩
  · rw [Still.columnOf_succ]
    exact hcolumn.nextColumn hc
  · -- the right row becomes the left one
    refine ⟨right, s.row y m, ?_, fun _ => rfl, fun hle => ?_⟩
    · have hstored := hwindow.shift.store (s.row y m)
      rw [← hrow] at hstored ⊢
      exact hstored
    · have : m + 1 - 2 = m - 1 := by omega
      rw [hright (by omega), this]

/-- With two rows stored the pixel on the screen is a point of the world. -/
theorem pixel {q : Nat} {v : UInt16} {t : TileFetch} (h : Fetching s y (q + 2) r v t)
    (hs : s.Shows) (hr : r < 8) {fineX : UInt8} (hfine : fineX.toNat = s.fine) :
    (t.pixel fineX).toNat =
      4 * s.world.quadrant (s.pointOf (8 * q + r)) (s.lineOf y) +
        s.world.value (s.pointOf (8 * q + r)) (s.lineOf y) := by
  obtain ⟨left, right, hwindow, hright, hleft⟩ := h.window
  have hlt := hs.fine_lt
  have hpixel := @Window.pixel _ _ _ _ hwindow fineX hr (hfine ▸ hlt)
  have hcolumn (j i : Nat) (hi : i < 8) (hx : s.fine + (8 * q + r) = 8 * j + i) :
      8 * s.columnOf j + i = s.pointOf (8 * q + r) := by
    simp only [Still.columnOf, Still.pointOf, worldColumns]
    omega
  rw [hpixel, hfine]
  by_cases hcase : s.fine + r < 8
  · have hpoint := hcolumn q (s.fine + r) hcase (by omega)
    have hq : q + 2 - 2 = q := by omega
    rw [if_pos hcase, hleft (by omega), hq, Still.row, World.packedPixel_row _ _ _ hcase, hpoint]
  · have hpoint := hcolumn (q + 1) (s.fine + r - 8) (by omega) (by omega)
    have hq : q + 2 - 1 = q + 1 := by omega
    have hindex : 15 - (s.fine + r) = 7 - (s.fine + r - 8) := by omega
    rw [if_neg hcase, hright (by omega), hq, hindex, Still.row,
      World.packedPixel_row _ _ _ (by omega : s.fine + r - 8 < 8), hpoint]

end Fetching

end Famicom.Video
