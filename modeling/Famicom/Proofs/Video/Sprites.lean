import Famicom.Proofs.Video.World

/-!
# Sprites by direct look-up

Which sprite shows at a point of the screen can be said without any rendering.
The sprites that reach a line are taken in the order of sprite memory, and no more
than eight of them (`Scene.selected`). The first of these that is solid at the point
shows there (`Scene.winner`), with a pixel of its pattern (`Scene.pixel`).

The picture unit selects the sprites of a line while the beam is on the line above
it, packs their rows and takes the pixels from the rows:

* **rows** — a fetched slot holds the row of its sprite (`Scene.Shown.depicts`);
* **selection** — the slots hold the sprites of the next line
  (`Scene.Shown.selectSprites`);
* **pixels** — what the slots give in a column is what the look-up finds
  (`Scene.Holds.pixel?_eq`).
-/

namespace Famicom

namespace Memory

variable {α : Type} {n : Nat} [ChipSize n]

/-- Cells before the values that are written stay as they are. -/
theorem read_writeAll_before (m : Memory α n) {i j : Nat} {values : List α}
    (hroom : i + values.length ≤ n) (hj : j < i) : (m.writeAll i values).read j = m.read j := by
  induction values generalizing m i with
  | nil => rfl
  | cons value rest ih =>
      simp only [List.length_cons] at hroom
      rw [writeAll, ih _ (by omega) (by omega), read_write, Nat.mod_eq_of_lt (by omega),
        Nat.mod_eq_of_lt (by omega), if_neg (by omega)]

/-- Values that are written next to each other are read again. -/
theorem read_writeAll (m : Memory α n) {i k : Nat} {values : List α} {value : α}
    (hroom : i + values.length ≤ n) (h : values[k]? = some value) :
    (m.writeAll i values).read (i + k) = value := by
  induction values generalizing m i k with
  | nil => exact absurd h (by simp)
  | cons first rest ih =>
      simp only [List.length_cons] at hroom
      rw [writeAll]
      cases k with
      | zero =>
          -- the first value stays while the others are written behind it
          obtain rfl : first = value := by simpa using h
          rw [read_writeAll_before _ (by omega) (by omega), Nat.add_zero, read_write, if_pos rfl]
      | succ k =>
          have hrest := ih (m.write i first) (i := i + 1) (k := k) (by omega) (by simpa using h)
          rw [Nat.add_right_comm] at hrest
          exact hrest

end Memory

namespace Video

open Cartridge

/-- What the sprites of a picture are made of. -/
structure Scene where
  sprites : SpriteMemory
  /-- Whether sprites are two tiles high. -/
  tall : Bool
  /-- Whether small sprites are taken from the upper pattern table. -/
  upper : Bool
  /-- The pattern memory, as the board shows it. -/
  pattern : UInt16 → UInt8

namespace Scene

variable (s : Scene) (i x y : Nat)

/-! ## Look-up -/

/-- The height of the sprites. -/
def height : Nat := if s.tall then 16 else 8

/-- Whether a sprite reaches a line. Its first line is the one below its
coordinate, and so no sprite reaches line 0. -/
def reaches : Bool :=
  let top := (s.sprites.sprite i).y.toNat
  decide (1 ≤ y ∧ top ≤ y - 1 ∧ y - 1 < top + s.height)

/-- The sprites of a line: the first eight that reach it. -/
def selected : List Nat := ((List.range 64).filter fun i => s.reaches i y).take 8

/-- The row of a sprite on a line, counted from the other end if the sprite is
upside down. -/
def row : Nat :=
  let sprite := s.sprites.sprite i
  let row := y - 1 - sprite.y.toNat
  if hasBits sprite.attributes 0x80 then s.height - 1 - row else row

/-- The column of a sprite, counted from the other end if the sprite is turned
around. -/
def column : Nat :=
  let sprite := s.sprites.sprite i
  let column := x - sprite.x.toNat
  if hasBits sprite.attributes 0x40 then 7 - column else column

/-- The tile that the row lies in, counted through both pattern tables. The lowest
bit of the number of a tall sprite selects the table. -/
def tile : Nat :=
  let number := (s.sprites.sprite i).tile.toNat
  if s.tall then 256 * (number % 2) + number / 2 * 2 + s.row i y / 8
  else (if s.upper then 256 else 0) + number

/-- One of the two pattern bytes of the row. -/
def plane (k : Nat) : UInt8 := s.pattern (.ofNat (16 * s.tile i y + s.row i y % 8 + 8 * k))

/-- The two pattern bits of a point of the sprite. -/
def value : Nat :=
  leftBit (s.plane i y 0) (s.column i x) + 2 * leftBit (s.plane i y 1) (s.column i x)

/-- The pixel of a point of the sprite: its palette and the two pattern bits. -/
def pixel : Nat := 4 * ((s.sprites.sprite i).attributes.toNat % 4) + s.value i x y

/-- Whether the point belongs to the sprite and can be seen. -/
def solid : Bool :=
  let left := (s.sprites.sprite i).x.toNat
  decide (left ≤ x ∧ x < left + 8 ∧ s.value i x y ≠ 0)

/-- The sprite that shows at a point. -/
def winner : Option Nat := (s.selected y).find? fun i => s.solid i x y

/-- Whether a solid background hides the sprite. -/
def behind : Bool := hasBits (s.sprites.sprite i).attributes 0x20

theorem value_lt : s.value i x y < 4 := by
  have hlow : leftBit (s.plane i y 0) (s.column i x) < 2 := Nat.mod_lt _ (by decide)
  have hhigh : leftBit (s.plane i y 1) (s.column i x) < 2 := Nat.mod_lt _ (by decide)
  unfold value
  omega

theorem pixel_mod : s.pixel i x y % 4 = s.value i x y := by
  have hvalue := s.value_lt i x y
  unfold pixel
  omega

theorem pixel_lt : s.pixel i x y < 16 := by
  have hvalue := s.value_lt i x y
  unfold pixel
  omega

variable {i x y}

/-- A selected sprite is one of the 64 and reaches the line. -/
theorem of_mem_selected (h : i ∈ s.selected y) : i < 64 ∧ s.reaches i y = true := by
  obtain ⟨hrange, hreaches⟩ := List.mem_filter.1 (List.mem_of_mem_take h)
  exact ⟨List.mem_range.1 hrange, hreaches⟩

/-- No sprite is on the first line. -/
theorem selected_zero : s.selected 0 = [] := by
  simp [selected, reaches]

theorem winner_zero : s.winner x 0 = none := by
  rw [winner, selected_zero]
  rfl

theorem length_selected_le (y : Nat) : (s.selected y).length ≤ 8 := List.length_take_le _ _

/-- Of 64 sprites in the same place the first eight are selected. -/
example :
    let s : Scene := { sprites := .filled 0, tall := false, upper := false, pattern := fun _ => 0 }
    s.selected 1 = [0, 1, 2, 3, 4, 5, 6, 7] := by
  decide +kernel

theorem value_of_winner (h : s.winner x y = some i) : s.value i x y ≠ 0 := by
  have hsolid := @List.find?_some _ (fun i => s.solid i x y) _ _ h
  exact (of_decide_eq_true hsolid).2.2

/-- A line of the screen that a sprite reaches is one of its rows. -/
theorem row_lt (h : s.reaches i y = true) : s.row i y < s.height := by
  obtain ⟨-, habove, hbelow⟩ := of_decide_eq_true h
  rw [row]
  split <;> omega

theorem tile_lt (h : s.reaches i y = true) : s.tile i y < 512 := by
  have hnumber := (s.sprites.sprite i).tile.toNat_lt
  have hrow := s.row_lt h
  rw [height] at hrow
  rw [tile]
  cases htall : s.tall with
  | false =>
      simp only [Bool.false_eq_true, if_false]
      split <;> omega
  | true =>
      simp only [htall, if_true] at hrow ⊢
      omega

end Scene

/-! ## Rows -/

/-- Reversed bits are counted from the other end. -/
theorem leftBit_reverseBits (b : UInt8) {j : Nat} (hj : j < 8) :
    leftBit (reverseBits b) j = leftBit b (7 - j) := by
  have table : ∀ n < 256, ∀ j < 8,
      leftBit (reverseBits (.ofNat n)) j = leftBit (.ofNat n) (7 - j) := by
    decide +kernel
  have hb := table b.toNat b.toNat_lt j hj
  rwa [UInt8.ofNat_toNat] at hb

namespace Sprite

theorem toNat_row (line : UInt16) {s : Sprite} (h : s.y.toNat ≤ line.toNat) :
    (s.row line).toNat = line.toNat - s.y.toNat := by
  rw [row, UInt16.toNat_sub_of_le _ _ (UInt16.le_iff_toNat_le.2 (by simpa using h)),
    UInt8.toNat_toUInt16]

/-- The row of a sprite is small only on its own lines. -/
theorem row_lt_iff {line height : UInt16} {s : Sprite} (hline : line.toNat < 240)
    (hheight : height.toNat ≤ 16) :
    s.row line < height ↔ s.y.toNat ≤ line.toNat ∧ line.toNat < s.y.toNat + height.toNat := by
  have hy := s.y.toNat_lt
  rw [UInt16.lt_iff_toNat_lt, row, UInt16.toNat_sub, UInt8.toNat_toUInt16]
  omega

/-- Counting from the other end. -/
theorem toNat_flipped (upsideDown : Bool) (last row : UInt16) (h : row.toNat ≤ last.toNat) :
    (if upsideDown then last - row else row).toNat =
      if upsideDown then last.toNat - row.toNat else row.toNat := by
  cases upsideDown with
  | false => rfl
  | true => exact UInt16.toNat_sub_of_le _ _ (UInt16.le_iff_toNat_le.2 h)

/-- The address of row `r` of a small sprite. -/
theorem toNat_patternAddress_small (s : Sprite) {table row : UInt16} {r : Nat}
    (htable : table.toNat ≤ 0x1000) (hrow : row.toNat < 8)
    (hr : r = if hasBits s.attributes 0x80 then 7 - row.toNat else row.toNat) :
    (s.patternAddress false table row).toNat = table.toNat + 16 * s.tile.toNat + r := by
  have hflipped : _ = r := (toNat_flipped _ 7 row (Nat.le_of_lt_succ hrow)).trans hr.symm
  have hlt : r < 8 := by
    rw [hr]
    split <;> omega
  have htile := s.tile.toNat_lt
  simp only [patternAddress, Bool.false_eq_true, if_false]
  rw [UInt16.toNat_add, hflipped, UInt16.toNat_add, UInt16.toNat_mul, UInt8.toNat_toUInt16]
  simp only [UInt16.reduceToNat]
  omega

/-- The address of row `r` of a tall sprite, whose two tiles follow each other. -/
theorem toNat_patternAddress_tall (s : Sprite) {table row : UInt16} {r : Nat}
    (hrow : row.toNat < 16)
    (hr : r = if hasBits s.attributes 0x80 then 15 - row.toNat else row.toNat) :
    (s.patternAddress true table row).toNat =
      0x1000 * (s.tile.toNat % 2) + 16 * (s.tile.toNat / 2 * 2 + r / 8) + r % 8 := by
  have hflipped : _ = r := (toNat_flipped _ 15 row (Nat.le_of_lt_succ hrow)).trans hr.symm
  have hlt : r < 16 := by
    rw [hr]
    split <;> omega
  have htile := s.tile.toNat_lt
  have htable : ((s.tile &&& 1).toUInt16 * 0x1000).toNat = 0x1000 * (s.tile.toNat % 2) := by
    rw [UInt16.toNat_mul, UInt8.toNat_toUInt16, Byte.toNat_and_low s.tile 1 rfl]
    simp only [UInt16.reduceToNat]
    omega
  have heven : (s.tile &&& 0xFE).toUInt16.toNat = s.tile.toNat / 2 * 2 := by
    rw [UInt8.toNat_toUInt16, UInt8.toNat_and]
    exact (Nat.and_field s.tile.toNat 1 7).trans (by omega)
  have hbit : s.tile.toNat % 2 < 2 := Nat.mod_lt _ (by decide)
  have hhalf : s.tile.toNat / 2 < 128 := by omega
  simp only [patternAddress, if_true]
  generalize s.tile.toNat % 2 = bit at *
  generalize s.tile.toNat / 2 = half at *
  generalize (if hasBits s.attributes 0x80 then 15 - row else row) = flipped at hflipped
  by_cases hlower : flipped > 7
  · -- the row lies in the lower one of the two tiles
    have hbelow : 8 ≤ flipped := UInt16.le_iff_toNat_le.2 (UInt16.lt_iff_toNat_lt.1 hlower)
    have hle : 8 ≤ flipped.toNat := UInt16.le_iff_toNat_le.1 hbelow
    rw [if_pos hlower, UInt16.toNat_add, UInt16.toNat_add, htable, UInt16.toNat_mul,
      UInt16.toNat_add, heven, UInt16.toNat_sub_of_le _ _ hbelow, hflipped]
    simp only [UInt16.reduceToNat]
    omega
  · have hle : flipped.toNat ≤ 7 := UInt16.le_iff_toNat_le.1 (UInt16.not_lt.1 hlower)
    rw [if_neg hlower, UInt16.toNat_add, UInt16.toNat_add, htable, UInt16.toNat_mul, heven,
      hflipped]
    simp only [UInt16.reduceToNat]
    omega

/-- The pixels of a packed row, from the left. -/
theorem packedPixel_packed (s : Sprite) (low high : UInt8) {j : Nat} (hj : j < 8) :
    packedPixel (s.packed low high).toNat (7 - j) =
      4 * (s.attributes.toNat % 4) +
        (leftBit low (if hasBits s.attributes 0x40 then 7 - j else j) +
          2 * leftBit high (if hasBits s.attributes 0x40 then 7 - j else j)) := by
  have hpalette : ((s.attributes &&& 0x03) <<< 2).toNat = 4 * (s.attributes.toNat % 4) := by
    rw [UInt8.toNat_shiftLeft, Byte.toNat_and_low _ 2 rfl]
    simp only [UInt8.reduceToNat, Nat.reduceMod, Nat.shiftLeft_eq]
    omega
  have hpixel (low high : UInt8) := packedPixel_packOnto (Nat.mod_lt _ (by decide)) hpalette 8
    (Nat.le_refl 8) low high 0 (by omega : 7 - j < 8)
  have hindex : 8 - 1 - (7 - j) = j := by omega
  simp only [packed, packRow]
  cases hasBits s.attributes 0x40 with
  | false =>
      simp only [Bool.false_eq_true, if_false]
      rw [hpixel, if_pos (by omega), hindex, Nat.add_assoc]
  | true =>
      simp only [if_true]
      rw [hpixel, if_pos (by omega), hindex, leftBit_reverseBits _ hj, leftBit_reverseBits _ hj,
        Nat.add_assoc]

end Sprite

/-! ## Selection -/

/-- A fetch of a pattern reads the board. -/
theorem PictureUnit.fetch_pattern (p : PictureUnit) (b : Board) {address : UInt16}
    (h : address.toNat < 0x2000) : p.fetch b address = b.readPattern address := by
  have hmask : address &&& 0x3FFF = address := by
    rw [← UInt16.toNat_inj, Word.toNat_and_low address 14 rfl]
    omega
  have hlow : address < 0x2000 := UInt16.lt_iff_toNat_lt.2 h
  rw [fetch, hmask, if_pos hlow]

namespace Scene

/-- A slot holds the row of a sprite on a line. -/
structure Depicts (s : Scene) (i y : Nat) (slot : Slot) : Prop where
  x : slot.x = (s.sprites.sprite i).x
  behind : slot.behind = s.behind i
  index : slot.index.toNat = i
  pattern : ∀ column < 8,
    packedPixel slot.pattern.toNat (7 - column) = s.pixel i (slot.x.toNat + column) y

/-- The slots hold the sprites of a line, in their order. -/
structure Holds (s : Scene) (selection : Selection) (y : Nat) : Prop where
  count : selection.count.toNat = (s.selected y).length
  slots : ∀ k i, (s.selected y)[k]? = some i → s.Depicts i y (selection.slots.read k)

/-- The picture unit and its board show these sprites. -/
structure Shown (s : Scene) (p : PictureUnit) (b : Board) : Prop where
  sprites : p.sprites = s.sprites
  tall : hasBits p.control 0x20 = s.tall
  upper : hasBits p.control 0x08 = s.upper
  pattern : ∀ address, b.readPattern address = s.pattern address

namespace Shown

variable {s : Scene} {p : PictureUnit} {b : Board} {i : Nat}

theorem toNat_spriteHeight (h : s.Shown p b) : p.spriteHeight.toNat = s.height := by
  rw [PictureUnit.spriteHeight, PictureUnit.tallSprites, h.tall, height]
  cases s.tall <;> rfl

theorem toNat_spriteTable (h : s.Shown p b) :
    p.spriteTable.toNat = if s.upper then 0x1000 else 0 := by
  rw [PictureUnit.spriteTable, h.upper]
  cases s.upper <;> rfl

/-- The sprites that are found on a line are those that reach the line below it. -/
theorem reachingSprites_eq (h : s.Shown p b) (hline : p.beam.line.toNat < 240) :
    p.reachingSprites = (List.range 64).filter fun i => s.reaches i (p.beam.line.toNat + 1) := by
  have hheight : p.spriteHeight.toNat ≤ 16 := by
    rw [h.toNat_spriteHeight, height]
    split <;> omega
  refine List.filter_congr fun i _ => ?_
  rw [reaches]
  refine decide_eq_decide.2 ?_
  rw [Sprite.row_lt_iff hline hheight, h.toNat_spriteHeight, h.sprites]
  omega

/-- The sprites that are selected on a line are those of the line below it. -/
theorem take_reachingSprites (h : s.Shown p b) (hline : p.beam.line.toNat < 240) :
    p.reachingSprites.take 8 = s.selected (p.beam.line.toNat + 1) := by
  rw [h.reachingSprites_eq hline, selected]

/-- The address of the row of a sprite that is selected on a line. -/
theorem toNat_patternAddress (h : s.Shown p b) (hreaches : s.reaches i (p.beam.line.toNat + 1)) :
    ((s.sprites.sprite i).patternAddress p.tallSprites p.spriteTable
        ((s.sprites.sprite i).row p.beam.line)).toNat =
      16 * s.tile i (p.beam.line.toNat + 1) + s.row i (p.beam.line.toNat + 1) % 8 := by
  obtain ⟨-, habove, hbelow⟩ := of_decide_eq_true hreaches
  have hlt := s.row_lt hreaches
  have hrow := Sprite.toNat_row p.beam.line (by simpa using habove)
  have htable := h.toNat_spriteTable
  rw [PictureUnit.tallSprites, h.tall, tile]
  cases htall : s.tall with
  | false =>
      have hheight : s.height = 8 := by rw [height, htall]; rfl
      rw [Sprite.toNat_patternAddress_small (r := s.row i (p.beam.line.toNat + 1)) _
        (by rw [htable]; split <;> omega) (by omega) (by rw [row, hheight, hrow]; rfl), htable]
      simp only [Bool.false_eq_true, if_false]
      split <;> omega
  | true =>
      have hheight : s.height = 16 := by rw [height, htall]; rfl
      rw [Sprite.toNat_patternAddress_tall (r := s.row i (p.beam.line.toNat + 1)) _ (by omega)
        (by rw [row, hheight, hrow]; rfl)]
      simp only [if_true]
      omega

/-- The two bytes that are fetched for the row of a sprite. -/
theorem fetch_plane (h : s.Shown p b) (hreaches : s.reaches i (p.beam.line.toNat + 1)) (k : Nat)
    (hk : k < 2) :
    p.fetch b ((s.sprites.sprite i).patternAddress p.tallSprites p.spriteTable
        ((s.sprites.sprite i).row p.beam.line) + .ofNat (8 * k)) =
      s.plane i (p.beam.line.toNat + 1) k := by
  have haddress := h.toNat_patternAddress hreaches
  have htile := s.tile_lt hreaches
  have hmod := Nat.mod_lt (s.row i (p.beam.line.toNat + 1)) (by decide : 8 > 0)
  have hplane : ((s.sprites.sprite i).patternAddress p.tallSprites p.spriteTable
        ((s.sprites.sprite i).row p.beam.line) + .ofNat (8 * k)).toNat =
      16 * s.tile i (p.beam.line.toNat + 1) + s.row i (p.beam.line.toNat + 1) % 8 + 8 * k := by
    rw [UInt16.toNat_add, haddress, UInt16.toNat_ofNat']
    omega
  rw [p.fetch_pattern b (by omega), h.pattern, plane, ← hplane, UInt16.ofNat_toNat]

/-- A slot that is fetched for a sprite holds its row on the next line. -/
theorem depicts (h : s.Shown p b) (hi : i < 64) (hreaches : s.reaches i (p.beam.line.toNat + 1)) :
    s.Depicts i (p.beam.line.toNat + 1) (p.fetchSprite b i) := by
  have hlow := h.fetch_plane hreaches 0 (by decide)
  have hhigh := h.fetch_plane hreaches 1 (by decide)
  have hzero : (.ofNat (8 * 0) : UInt16) = 0 := rfl
  have height : (.ofNat (8 * 1) : UInt16) = 8 := rfl
  rw [hzero, UInt16.add_zero] at hlow
  rw [height] at hhigh
  refine ⟨?_, ?_, ?_, ?_⟩
  · simp only [PictureUnit.fetchSprite, h.sprites]
  · simp only [PictureUnit.fetchSprite, h.sprites, behind]
  · show i.toUInt8.toNat = i
    rw [UInt8.toNat_ofNat']
    omega
  · intro j hj
    simp only [PictureUnit.fetchSprite, h.sprites, hlow, hhigh]
    rw [Sprite.packedPixel_packed _ _ _ hj, pixel, value, column, Nat.add_sub_cancel_left]

/-- **The sprites of the next line are selected.** -/
theorem selectSprites (h : s.Shown p b) (hline : p.beam.line.toNat < 240) :
    s.Holds (p.selectSprites b).selection (p.beam.line.toNat + 1) := by
  have hselected := h.take_reachingSprites hline
  have hlength := s.length_selected_le (p.beam.line.toNat + 1)
  simp only [PictureUnit.selectSprites, hselected]
  refine ⟨?_, fun k i hk => ?_⟩
  · show (List.length _).toUInt8.toNat = _
    rw [List.length_map, UInt8.toNat_ofNat']
    omega
  · obtain ⟨hi, hreaches⟩ := s.of_mem_selected (List.mem_of_getElem? hk)
    have hslot : ((s.selected (p.beam.line.toNat + 1)).map (p.fetchSprite b))[k]? =
        some (p.fetchSprite b i) := by
      rw [List.getElem?_map, hk, Option.map_some]
    have hread := p.selection.slots.read_writeAll (i := 0) (by rw [List.length_map]; omega) hslot
    rw [Nat.zero_add] at hread
    rw [hread]
    exact h.depicts hi hreaches

end Shown

/-- Without any sprite the slots hold those of the first line. -/
theorem holds_none (s : Scene) {selection : Selection} (h : selection.count = 0) :
    s.Holds selection 0 := by
  refine ⟨?_, fun k i hk => ?_⟩
  · rw [h, s.selected_zero]
    rfl
  · rw [s.selected_zero] at hk
    exact absurd hk (by simp)

/-! ## Pixels -/

/-- The pixel of a slot, `offset` columns from its left edge. -/
theorem toNat_slotPixel (slot : Slot) {offset : UInt32} (h : offset.toNat < 8) :
    ((slot.pattern >>> ((7 - offset) * 4)).toUInt8 &&& 0x0F).toNat =
      packedPixel slot.pattern.toNat (7 - offset.toNat) := by
  have hshift : ((7 - offset) * 4).toNat = 4 * (7 - offset.toNat) := by
    rw [UInt32.toNat_mul, UInt32.toNat_sub]
    simp only [UInt32.reduceToNat]
    omega
  rw [Byte.toNat_and_low _ 4 rfl, UInt32.toNat_toUInt8, UInt32.toNat_shiftRight, hshift,
    Nat.mod_eq_of_lt (by omega : 4 * (7 - offset.toNat) < 32), Nat.shiftRight_eq_div_pow,
    Nat.pow_mul, packedPixel]
  exact Nat.mod_mod_of_dvd _ (by decide)

/-- What is seen of a sprite: its number, whether the background hides it, and
its pixel. -/
def seen (s : Scene) (x y i : Nat) : Nat × Bool × Nat := (i, s.behind i, s.pixel i x y)

/-- What is seen of a slot. -/
def seenSlot (found : Slot × UInt8) : Nat × Bool × Nat :=
  (found.1.index.toNat, found.1.behind, found.2.toNat)

variable {s : Scene} {selection : Selection} {x : UInt32} {i y : Nat} {slot : Slot}

/-- A slot is passed over where its sprite is not solid. -/
theorem Depicts.skipped_iff (h : s.Depicts i y slot) (hx : x.toNat < 256) :
    (x - slot.x.toUInt32 > 7 ||
        ((slot.pattern >>> ((7 - (x - slot.x.toUInt32)) * 4)).toUInt8 &&& 0x0F) &&& 0x03 == 0) =
      !s.solid i x.toNat y := by
  have hleft := slot.x.toNat_lt
  have hoffset : (x - slot.x.toUInt32).toNat = (2 ^ 32 - slot.x.toNat + x.toNat) % 2 ^ 32 := by
    rw [UInt32.toNat_sub, UInt8.toNat_toUInt32]
  have houtside : x - slot.x.toUInt32 > 7 ↔
      ¬ (slot.x.toNat ≤ x.toNat ∧ x.toNat < slot.x.toNat + 8) := by
    rw [gt_iff_lt, UInt32.lt_iff_toNat_lt, hoffset]
    simp only [UInt32.reduceToNat]
    omega
  rw [solid, ← h.x]
  by_cases hinside : slot.x.toNat ≤ x.toNat ∧ x.toNat < slot.x.toNat + 8
  · have hlt : (x - slot.x.toUInt32).toNat < 8 := by omega
    have hcolumn : slot.x.toNat + (x - slot.x.toUInt32).toNat = x.toNat := by omega
    have hpixel := toNat_slotPixel slot hlt
    rw [h.pattern _ hlt, hcolumn] at hpixel
    have hbits : (((slot.pattern >>> ((7 - (x - slot.x.toUInt32)) * 4)).toUInt8 &&& 0x0F) &&& 0x03
        == 0) = decide (s.value i x.toNat y = 0) := by
      rw [Bool.beq_eq_decide_eq]
      refine decide_eq_decide.2 ?_
      rw [← UInt8.toNat_inj, Byte.toNat_and_low _ 2 rfl, hpixel, ← s.pixel_mod i x.toNat y]
      rfl
    simp only [houtside, hbits, hinside, not_true, decide_false, Bool.false_or, true_and, ne_eq,
      decide_not, Bool.not_not, and_self]
  · simp only [houtside, hinside, not_false_iff, decide_true, Bool.true_or]
    rw [decide_eq_false fun hsolid => hinside ⟨hsolid.1, hsolid.2.1⟩]
    rfl

/-- Where its sprite is solid a slot gives the pixel of the sprite. -/
theorem Depicts.seen (h : s.Depicts i y slot) (hsolid : s.solid i x.toNat y = true) :
    seenSlot (slot, (slot.pattern >>> ((7 - (x - slot.x.toUInt32)) * 4)).toUInt8 &&& 0x0F) =
      s.seen x.toNat y i := by
  obtain ⟨habove, hbelow, -⟩ := of_decide_eq_true hsolid
  rw [← h.x] at habove hbelow
  have hoffset : (x - slot.x.toUInt32).toNat = x.toNat - slot.x.toNat := by
    rw [UInt32.toNat_sub_of_le _ _ (UInt32.le_iff_toNat_le.2 (by simpa using habove)),
      UInt8.toNat_toUInt32]
  have hlt : (x - slot.x.toUInt32).toNat < 8 := by omega
  have hcolumn : slot.x.toNat + (x - slot.x.toUInt32).toNat = x.toNat := by omega
  rw [seenSlot, Scene.seen, toNat_slotPixel slot hlt, h.pattern _ hlt, hcolumn, h.index, h.behind]

/-- The slots from `i` on, which hold these sprites, show the first one that is solid. -/
theorem solidFrom_eq (hx : x.toNat < 256) (sprites : List Nat) (first : Nat)
    (h : ∀ k i, sprites[k]? = some i → s.Depicts i y (selection.slots.read (first + k))) :
    (selection.solidFrom x sprites.length first).map seenSlot =
      (sprites.find? fun i => s.solid i x.toNat y).map (s.seen x.toNat y) := by
  -- the recursion over the slots is that over the sprites they hold
  induction sprites generalizing first with
  | nil => rfl
  | cons i rest ih =>
      have hslot : s.Depicts i y (selection.slots.read first) := h 0 i rfl
      have hrest := ih (first + 1) fun k j hk => by
        have hnext := h (k + 1) j (by simpa using hk)
        rwa [Nat.add_left_comm, Nat.add_comm] at hnext
      rw [List.length_cons, Selection.solidFrom]
      simp only [hslot.skipped_iff hx]
      cases hsolid : s.solid i x.toNat y with
      | false =>
          rw [List.find?_cons_of_neg (by simp [hsolid])]
          simpa using hrest
      | true =>
          rw [List.find?_cons_of_pos (by simpa using hsolid)]
          simp only [Bool.not_true, Bool.false_eq_true, if_false, Option.map_some]
          rw [hslot.seen hsolid]

/-- **The sprite pixel of a column is that of the look-up.** -/
theorem Holds.pixel?_eq (h : s.Holds selection y) (hx : x.toNat < 256) :
    (selection.pixel? x).map seenSlot = (s.winner x.toNat y).map (s.seen x.toNat y) := by
  have hfrom := solidFrom_eq hx (s.selected y) 0 fun k i hk => by
    rw [Nat.zero_add]
    exact h.slots k i hk
  rw [Selection.pixel?, winner, ← hfrom, ← h.count]
  split
  · rename_i hzero
    rw [beq_iff_eq.1 hzero]
    rfl
  · rfl

end Scene

end Video

end Famicom
