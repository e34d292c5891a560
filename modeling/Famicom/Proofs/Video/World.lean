import Famicom.Proofs.Video.Position
import Famicom.Video.Rendering

/-!
# The background by direct look-up

What stands at a point of the world can be looked up without any rendering: the
nametable that the point lies in, behind the mirroring, names a tile and chooses
a palette for it, and two bytes of the pattern of the tile hold the two bits of
the point (`World.colour`).

The picture unit looks up a row of eight points at a time, through addresses
that it makes of a scroll word. They are the same places:

* **addresses** — `World.Shown.name`, `World.Shown.palette` and
  `World.Shown.plane` say what is fetched at a position;
* **rows** — the points of a packed row are the points of the world
  (`World.packedPixel_row`).
-/

namespace Famicom.Video

open Cartridge Scroll Word

/-- What the background is made of. -/
structure World where
  nametables : Memory UInt8 0x1000
  palette : Memory UInt8 32
  mirroring : Mirroring
  /-- The pattern memory, as the board shows it. -/
  pattern : UInt16 → UInt8
  /-- Whether the tiles are taken from the upper pattern table. -/
  upper : Bool

namespace World

variable (w : World) (x y : Nat)

/-! ## Look-up -/

/-- A byte of the nametable that the point lies in. There are two tables side by
side, and two below them. -/
def tableByte (offset : Nat) : UInt8 :=
  let table := x / 256 + 2 * (y / 240)
  have : table % 4 < 4 := Nat.mod_lt _ (by decide)
  w.nametables.read (w.mirroring.tables[table % 4] * 0x400 + offset)

/-- The number of the tile at the point. There are 32 tiles in a row. -/
def name : UInt8 := w.tableByte x y (32 * (y % 240 / 8) + x % 256 / 8)

/-- The palettes of the group of four by four tiles that the point lies in. -/
def attributes : UInt8 := w.tableByte x y (0x3C0 + 8 * (y % 240 / 32) + x % 256 / 32)

/-- The palette of the quarter of the group that the point lies in. -/
def quadrant : Nat :=
  (w.attributes x y).toNat / 4 ^ (2 * (y % 240 / 16 % 2) + x % 256 / 16 % 2) % 4

/-- One of the two pattern bytes of the row of the tile. -/
def plane (k : Nat) : UInt8 :=
  w.pattern
    (.ofNat ((if w.upper then 0x1000 else 0) + 16 * (w.name x y).toNat + y % 240 % 8 + 8 * k))

/-- The bit of the point in a pattern byte, whose highest bit is on the left. -/
def bit (k : Nat) : Nat := (w.plane x y k).toNat / 2 ^ (7 - x % 256 % 8) % 2

/-- The two pattern bits. -/
def value : Nat := w.bit x y 0 + 2 * w.bit x y 1

/-- The palette entry. Points without pattern show the backdrop. -/
def entry : Nat := if w.value x y = 0 then 0 else 4 * w.quadrant x y + w.value x y

/-- The colour of a point of the world. -/
def colour : UInt8 := w.palette.read (w.entry x y)

theorem quadrant_lt : w.quadrant x y < 4 := Nat.mod_lt _ (by decide)

theorem bit_lt (k : Nat) : w.bit x y k < 2 := Nat.mod_lt _ (by decide)

theorem value_lt : w.value x y < 4 := by
  have h0 := w.bit_lt x y 0
  have h1 := w.bit_lt x y 1
  unfold value
  omega

/-! ## Rows -/

/-- The palette of a tile in a column of the world, in the place it has in a
pixel. -/
def tilePalette (c l : Nat) : UInt8 := .ofNat (4 * w.quadrant (8 * c) l)

/-- The packed row of a tile in a column of the world. -/
def row (c l : Nat) : UInt32 :=
  packRow (w.tilePalette c l) (w.plane (8 * c) l 0) (w.plane (8 * c) l 1)

end World

/-! ### Packing -/

/-- A pixel of packed pixels, counted from the right. -/
def packedPixel (pixels i : Nat) : Nat := pixels / 16 ^ i % 16

theorem packedPixel_append {pixel : Nat} (pixels i : Nat) (h : pixel < 16) :
    packedPixel (16 * pixels + pixel) i = if i = 0 then pixel else packedPixel pixels (i - 1) := by
  cases i with
  | zero =>
      simp only [packedPixel, Nat.pow_zero, Nat.div_one, if_true]
      omega
  | succ i =>
      have hone : (16 * pixels + pixel) / 16 = pixels := by omega
      simp only [packedPixel, Nat.succ_ne_zero, if_false, Nat.add_sub_cancel]
      rw [Nat.pow_succ', ← Nat.div_div_eq_div_mul, hone]

/-- Cutting off pixels on the left does not change those on the right. -/
theorem packedPixel_mod {n i : Nat} (pixels : Nat) (hi : i < n) :
    packedPixel (pixels % 16 ^ n) i = packedPixel pixels i := by
  obtain ⟨k, rfl⟩ : ∃ k, n = i + (k + 1) := ⟨n - i - 1, by omega⟩
  unfold packedPixel
  rw [Nat.pow_add, Nat.mod_mul_right_div_self, Nat.pow_succ]
  exact Nat.mod_mod_of_dvd _ (Nat.dvd_mul_left 16 _)

/-- The bits of a byte from the left. -/
def leftBit (b : UInt8) (j : Nat) : Nat := b.toNat / 2 ^ (7 - j) % 2

theorem leftBit_shift (b : UInt8) {j : Nat} (hj : j < 7) :
    leftBit (b <<< 1) j = leftBit b (j + 1) := by
  have hshift : (b <<< 1).toNat = b.toNat * 2 % 2 ^ 8 := by
    rw [UInt8.toNat_shiftLeft, Nat.shiftLeft_eq]
    rfl
  -- the bit that falls out at the left lies above the one that is read
  obtain ⟨k, hk⟩ : ∃ k, 7 - j = k + 1 := ⟨6 - j, by omega⟩
  have hk' : 7 - (j + 1) = k := by omega
  have hpow : 2 ^ 8 = 2 ^ (k + 1) * 2 ^ (7 - k) := by
    rw [← Nat.pow_add]
    congr 1
    omega
  have hdvd : 2 ∣ 2 ^ (7 - k) := Nat.dvd_of_pow_dvd (by omega : 1 ≤ 7 - k) (Nat.dvd_refl _)
  unfold leftBit
  rw [hshift, hk, hk', hpow, Nat.mod_mul_right_div_self, Nat.mod_mod_of_dvd _ hdvd, Nat.pow_succ',
    ← Nat.div_div_eq_div_mul, Nat.mul_div_cancel _ (by decide)]

/-- The pixel that is appended for the leftmost bits of the two bytes. -/
theorem toNat_pixel {palette low high : UInt8} {k : Nat} (hk : k < 4)
    (hpalette : palette.toNat = 4 * k) :
    (palette ||| ((low &&& 0x80) >>> 7) ||| ((high &&& 0x80) >>> 6)).toNat =
      4 * k + leftBit low 0 + 2 * leftBit high 0 := by
  have hbit (b : UInt8) : (b &&& 0x80).toNat = leftBit b 0 * 2 ^ 7 := by
    rw [UInt8.toNat_and]
    exact Nat.and_field b.toNat 7 1
  have table : ∀ k < 4, ∀ a < 2, ∀ b < 2, 4 * k ||| a ||| 2 * b = 4 * k + a + 2 * b := by decide
  have ha : leftBit low 0 < 2 := Nat.mod_lt _ (by decide)
  have hb : leftBit high 0 < 2 := Nat.mod_lt _ (by decide)
  simp only [UInt8.toNat_or, UInt8.toNat_shiftRight, hbit, hpalette, UInt8.reduceToNat,
    Nat.reduceMod, Nat.shiftRight_eq_div_pow]
  rw [← table k hk _ ha _ hb]
  congr 2
  · omega
  · omega

theorem toNat_append (row : UInt32) {pixel : UInt8} (h : pixel.toNat < 16) :
    ((row <<< 4) ||| pixel.toUInt32).toNat = 16 * (row.toNat % 16 ^ 7) + pixel.toNat := by
  have hshift : (row <<< 4).toNat = (row.toNat % 16 ^ 7) <<< 4 := by
    simp only [UInt32.toNat_shiftLeft, UInt32.reduceToNat, Nat.reduceMod, Nat.shiftLeft_eq]
    omega
  rw [UInt32.toNat_or, hshift, UInt8.toNat_toUInt32, ← Nat.shiftLeft_add_eq_or_of_lt h,
    Nat.shiftLeft_eq]
  omega

/-- The pixels that were appended stand on the right, and the old ones have moved
to the left. -/
theorem packedPixel_packOnto {palette : UInt8} {k : Nat} (hk : k < 4)
    (hpalette : palette.toNat = 4 * k) (n : Nat) (hn : n ≤ 8) (low high : UInt8) (row : UInt32)
    {i : Nat} (hi : i < 8) :
    packedPixel (packOnto n palette low high row).toNat i =
      if i < n then 4 * k + leftBit low (n - 1 - i) + 2 * leftBit high (n - 1 - i)
      else packedPixel row.toNat (i - n) := by
  -- a pixel is appended and the two bytes move on; all that was there goes one place
  -- to the left, so the claim is about any row to begin with
  induction n generalizing low high row with
  | zero => rfl
  | succ n ih =>
      have hpixel := @toNat_pixel palette low high k hk hpalette
      have hlt : 4 * k + leftBit low 0 + 2 * leftBit high 0 < 16 := by
        have ha : leftBit low 0 < 2 := Nat.mod_lt _ (by decide)
        have hb : leftBit high 0 < 2 := Nat.mod_lt _ (by decide)
        omega
      have happend := toNat_append row (hpixel ▸ hlt)
      rw [packOnto, ih (by omega)]
      by_cases hin : i < n
      · have hbefore : n + 1 - 1 - i = n - 1 - i + 1 := by omega
        rw [if_pos hin, if_pos (by omega), hbefore, leftBit_shift _ (by omega),
          leftBit_shift _ (by omega)]
      · rw [if_neg hin, happend, hpixel, packedPixel_append _ _ hlt]
        by_cases heq : i = n
        · subst heq
          simp
        · have hne : i - n ≠ 0 := by omega
          have hlast : i - n - 1 = i - (n + 1) := by omega
          rw [if_neg hne, if_neg (by omega), packedPixel_mod _ (by omega), hlast]

/-- **The pixels of a row are the points of the world.** -/
theorem World.packedPixel_row (w : World) (c l : Nat) {j : Nat} (hj : j < 8) :
    packedPixel (w.row c l).toNat (7 - j) =
      4 * w.quadrant (8 * c + j) l + w.value (8 * c + j) l := by
  -- all points of the row lie in the tile of the leftmost one
  have hx : (8 * c + j) / 256 = 8 * c / 256 := by omega
  have hcolumn : (8 * c + j) % 256 / 8 = 8 * c % 256 / 8 := by omega
  have hgroup : (8 * c + j) % 256 / 32 = 8 * c % 256 / 32 := by omega
  have hquarter : (8 * c + j) % 256 / 16 = 8 * c % 256 / 16 := by omega
  have hfine : (8 * c + j) % 256 % 8 = j := by omega
  have hname : w.name (8 * c + j) l = w.name (8 * c) l := by
    simp only [World.name, World.tableByte, hx, hcolumn]
  have hattributes : w.attributes (8 * c + j) l = w.attributes (8 * c) l := by
    simp only [World.attributes, World.tableByte, hx, hgroup]
  have hquadrant : w.quadrant (8 * c + j) l = w.quadrant (8 * c) l := by
    simp only [World.quadrant, hattributes, hquarter]
  have hplane (k : Nat) : w.plane (8 * c + j) l k = w.plane (8 * c) l k := by
    simp only [World.plane, hname]
  have hpalette : (w.tilePalette c l).toNat = 4 * w.quadrant (8 * c) l := by
    have := w.quadrant_lt (8 * c) l
    rw [World.tilePalette, UInt8.toNat_ofNat']
    omega
  have hi : 8 - 1 - (7 - j) = j := by omega
  rw [World.row, packRow, packedPixel_packOnto (w.quadrant_lt _ _) hpalette 8 (Nat.le_refl 8) _ _ _
    (by omega), if_pos (by omega), hi, hquadrant]
  simp only [World.value, World.bit, hplane, hfine, leftBit]
  omega

/-! ## Fetching -/

/-- The picture unit and its board show this world. -/
structure World.Shown (w : World) (p : PictureUnit) (b : Board) : Prop where
  nametables : p.nametables = w.nametables
  upper : hasBits p.control 0x10 = w.upper
  mirroring : b.mirroring = w.mirroring
  pattern : ∀ address, b.readPattern address = w.pattern address

/-- A position in tile coordinates. -/
structure Scroll.At (v : UInt16) (c l : Nat) : Prop where
  column : AtColumn v c
  line : AtLine v l
  column_lt : c < worldColumns
  line_lt : l < worldLines

namespace World.Shown

variable {w : World} {p : PictureUnit} {b : Board} {v : UInt16} {c l : Nat}

/-- A fetch from the nametables reads the table that the address selects. -/
theorem fetch_table (h : w.Shown p b) {address : UInt16} {table offset : Nat}
    (hat : Scroll.At v c l) (htable : table = 2 * (l / 240) + c / 32)
    (haddress : address.toNat = 0x2000 + 0x400 * table + offset) (hoffset : offset < 0x400) :
    p.fetch b address = w.tableByte (8 * c) l offset := by
  have hc := hat.column_lt
  have hl := hat.line_lt
  simp only [worldColumns, worldLines] at hc hl
  have htable' : table < 4 := by omega
  have hmask : address &&& 0x3FFF = address := by
    rw [← UInt16.toNat_inj, toNat_and_low address 14 rfl]
    omega
  have hlow : ¬ address < 0x2000 := by
    rw [UInt16.lt_iff_toNat_lt]
    simp only [UInt16.reduceToNat]
    omega
  have hhigh : address < 0x3F00 := by
    rw [UInt16.lt_iff_toNat_lt]
    simp only [UInt16.reduceToNat]
    omega
  have hindex : address.toNat % 0x1000 / 0x400 = (8 * c / 256 + 2 * (l / 240)) % 4 := by omega
  have hrest : address.toNat % 0x1000 % 0x400 = offset := by omega
  simp only [PictureUnit.fetch, hmask, hlow, hhigh, if_true, if_false, h.nametables, h.mirroring,
    Mirroring.cell, hrest, tableByte, hindex]

theorem toNat_nameAddress (hat : Scroll.At v c l) :
    (TileFetch.nameAddress v).toNat =
      0x2000 + 0x400 * (2 * (l / 240) + c / 32) + (32 * (l % 240 / 8) + c % 32) := by
  have hcolumn := hat.column.column
  have hright := hat.column.right
  have hrow := hat.line.row
  have hlower := hat.line.lower
  -- column, row and the two table bits are neighbours in the word
  have hfields : (v &&& 0x0FFF).toNat =
      c % 32 + 2 ^ 5 * (l % 240 / 8 + 2 ^ 5 * (c / 32 + 2 ^ 1 * (l / 240))) := by
    rw [← hcolumn, ← hrow, ← hright, ← hlower, ← field_append v 10 1 1, ← field_append v 5 5 2,
      ← field_append v 0 5 7]
    exact toNat_and_field v 0 12 rfl |>.trans (Nat.mul_one _)
  have hlt : (v &&& 0x0FFF).toNat < 2 ^ 12 := by
    rw [toNat_and_low v 12 rfl]
    exact Nat.mod_lt _ (by decide)
  rw [TileFetch.nameAddress, UInt16.toNat_or]
  show 2 <<< 12 ||| (v &&& 0x0FFF).toNat = _
  rw [← Nat.shiftLeft_add_eq_or_of_lt hlt, hfields, Nat.shiftLeft_eq]
  omega

/-- The tile number. -/
theorem name (h : w.Shown p b) (hat : Scroll.At v c l) :
    p.fetch b (TileFetch.nameAddress v) = w.name (8 * c) l := by
  have hc := hat.column_lt
  have hcolumn : 8 * c % 256 / 8 = c % 32 := by omega
  rw [h.fetch_table hat rfl (toNat_nameAddress hat) (by omega), World.name, hcolumn]

theorem toNat_attributeAddress (hat : Scroll.At v c l) :
    (TileFetch.attributeAddress v).toNat =
      0x2000 + 0x400 * (2 * (l / 240) + c / 32) + (0x3C0 + 8 * (l % 240 / 32) + c % 32 / 4) := by
  have hcolumn := hat.column.column
  have hright := hat.column.right
  have hrow := hat.line.row
  have hlower := hat.line.lower
  have htable : (v &&& 0x0C00).toNat = (2 * (l / 240) + c / 32) * 2 ^ 10 := by
    rw [← hlower, ← hright, Nat.add_comm (2 * _), ← Nat.pow_one 2, ← field_append v 10 1 1]
    exact toNat_and_field v 10 2 rfl
  simp only [field] at hcolumn hrow
  have hgroupRow : ((v >>> 4) &&& 0x38).toNat = (l % 240 / 32) * 2 ^ 3 := by
    rw [toNat_and_field _ 3 3 rfl, UInt16.toNat_shiftRight]
    simp only [UInt16.reduceToNat, Nat.reduceMod, Nat.shiftRight_eq_div_pow]
    omega
  have hgroupColumn : ((v >>> 2) &&& 0x07).toNat = c % 32 / 4 := by
    rw [toNat_and_low _ 3 rfl, UInt16.toNat_shiftRight]
    simp only [UInt16.reduceToNat, Nat.reduceMod, Nat.shiftRight_eq_div_pow]
    omega
  have hc := hat.column_lt
  have hl := hat.line_lt
  simp only [worldColumns, worldLines] at hc hl
  -- the four parts of the address do not overlap, so that their union is their sum
  have tables : ∀ k < 4, 0x23C0 ||| k * 2 ^ 10 = (0x8F + 16 * k) <<< 6 := by decide
  have hrowlt : l % 240 / 32 * 2 ^ 3 < 2 ^ 6 := by omega
  have hcollt : c % 32 / 4 < 2 ^ 3 := by omega
  have hsplit (k r : Nat) :
      (0x8F + 16 * k) <<< 6 + r * 2 ^ 3 = (8 * (0x8F + 16 * k) + r) <<< 3 := by
    simp only [Nat.shiftLeft_eq]
    omega
  simp only [TileFetch.attributeAddress, UInt16.toNat_or, htable, hgroupRow, hgroupColumn,
    UInt16.reduceToNat]
  rw [tables _ (by omega), ← Nat.shiftLeft_add_eq_or_of_lt hrowlt, hsplit,
    ← Nat.shiftLeft_add_eq_or_of_lt hcollt, Nat.shiftLeft_eq]
  omega

theorem attributes (h : w.Shown p b) (hat : Scroll.At v c l) :
    p.fetch b (TileFetch.attributeAddress v) = w.attributes (8 * c) l := by
  have hc := hat.column_lt
  have hl := hat.line_lt
  have hcolumn : 8 * c % 256 / 32 = c % 32 / 4 := by omega
  rw [h.fetch_table hat rfl (toNat_attributeAddress hat) (by omega), World.attributes, hcolumn]

/-- The palette, in its place. -/
theorem palette (h : w.Shown p b) (hat : Scroll.At v c l) :
    TileFetch.quarter v (p.fetch b (TileFetch.attributeAddress v)) = w.tilePalette c l := by
  have hcolumn := hat.column.column
  have hrow := hat.line.row
  simp only [field] at hcolumn hrow
  have hlower : ((v >>> 4) &&& 0x04).toNat = l % 240 / 16 % 2 * 2 ^ 2 := by
    rw [toNat_and_field _ 2 1 rfl, UInt16.toNat_shiftRight]
    simp only [UInt16.reduceToNat, Nat.reduceMod, Nat.shiftRight_eq_div_pow]
    omega
  have hright : (v &&& 0x02).toNat = 8 * c % 256 / 16 % 2 * 2 ^ 1 := by
    rw [toNat_and_field _ 1 1 rfl]
    omega
  have hshift : (((v >>> 4) &&& 0x04) ||| (v &&& 0x02)).toNat =
      2 * (2 * (l % 240 / 16 % 2) + 8 * c % 256 / 16 % 2) := by
    have table : ∀ i < 2, ∀ j < 2, i * 2 ^ 2 ||| j * 2 ^ 1 = 2 * (2 * i + j) := by decide
    rw [UInt16.toNat_or, hlower, hright]
    exact table _ (Nat.mod_lt _ (by decide)) _ (Nat.mod_lt _ (by decide))
  have hlt : 2 * (2 * (l % 240 / 16 % 2) + 8 * c % 256 / 16 % 2) < 8 := by omega
  have hbits : ((w.attributes (8 * c) l >>>
      (((v >>> 4) &&& 0x04) ||| (v &&& 0x02)).toUInt8) &&& 0x03).toNat = w.quadrant (8 * c) l := by
    rw [Byte.toNat_and_low _ 2 rfl, UInt8.toNat_shiftRight, UInt16.toNat_toUInt8, hshift,
      Nat.mod_eq_of_lt (by omega : 2 * (2 * (l % 240 / 16 % 2) + 8 * c % 256 / 16 % 2) < 256),
      Nat.mod_eq_of_lt hlt, Nat.shiftRight_eq_div_pow, Nat.pow_mul]
    rfl
  have hquadrant := w.quadrant_lt (8 * c) l
  rw [h.attributes hat, ← UInt8.toNat_inj, tilePalette, UInt8.toNat_ofNat']
  simp only [TileFetch.quarter]
  rw [UInt8.toNat_shiftLeft, hbits]
  simp only [UInt8.reduceToNat, Nat.reduceMod, Nat.shiftLeft_eq]
  omega

/-- The two bytes of the row of the tile. -/
theorem plane (h : w.Shown p b) (hat : Scroll.At v c l) {t : TileFetch}
    (hname : t.name = w.name (8 * c) l) (k : Nat) (hk : k < 2) :
    p.fetch b (t.patternAddress p.backgroundTable v + .ofNat (8 * k)) = w.plane (8 * c) l k := by
  have hl := hat.line_lt
  have hfine := hat.line.fine
  have hrow : ((v >>> 12) &&& 0x07).toNat = l % 8 := by
    rw [toNat_and_low _ 3 rfl, UInt16.toNat_shiftRight, ← hfine]
    simp only [field, UInt16.reduceToNat, Nat.reduceMod, Nat.shiftRight_eq_div_pow]
  have htable : p.backgroundTable.toNat = if w.upper then 0x1000 else 0 := by
    rw [PictureUnit.backgroundTable, h.upper]
    cases w.upper <;> rfl
  have htablelt : p.backgroundTable.toNat ≤ 0x1000 := by
    rw [htable]
    split <;> omega
  have hnamelt := t.name.toNat_lt
  have haddress : (t.patternAddress p.backgroundTable v + .ofNat (8 * k)).toNat =
      p.backgroundTable.toNat + 16 * t.name.toNat + l % 8 + 8 * k := by
    simp only [TileFetch.patternAddress, UInt16.toNat_add, UInt16.toNat_mul, UInt8.toNat_toUInt16,
      hrow, UInt16.toNat_ofNat', UInt16.reduceToNat]
    omega
  have hmask : (t.patternAddress p.backgroundTable v + .ofNat (8 * k)) &&& 0x3FFF =
      t.patternAddress p.backgroundTable v + .ofNat (8 * k) := by
    rw [← UInt16.toNat_inj, toNat_and_low _ 14 rfl, haddress]
    omega
  have hlow : t.patternAddress p.backgroundTable v + .ofNat (8 * k) < 0x2000 := by
    rw [UInt16.lt_iff_toNat_lt, haddress]
    simp only [UInt16.reduceToNat]
    omega
  have hsame : l % 240 % 8 = l % 8 := by omega
  simp only [PictureUnit.fetch, hmask, hlow, if_true, h.pattern, World.plane]
  congr 1
  rw [← UInt16.toNat_inj, haddress, UInt16.toNat_ofNat', htable, hname, hsame]
  have := (w.name (8 * c) l).toNat_lt
  split <;> omega

end World.Shown

end Famicom.Video
