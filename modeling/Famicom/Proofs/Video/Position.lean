import Famicom.Proofs.Word
import Famicom.Video.Scroll

/-!
# Positions in the world

The four nametables make a world of 64 tile columns and 480 lines, which wraps
around in both directions. A scroll word is a position in it (`AtColumn`,
`AtLine`):

* **steps** — `nextColumn` is a step to the right and `nextRow` a step down,
  around the edges of the world (`AtColumn.nextColumn`, `AtLine.nextRow`);
* **copies** — the two copies take over one coordinate and leave the other
  (`atColumn_copyHorizontal`, `atLine_copyVertical`);
* **origin** — a start position is made of a nametable and two scroll values
  (`atColumn_origin`, `atLine_origin`).
-/

namespace Famicom.Video.Scroll

open Word

/-- Tile columns of the world. -/
def worldColumns : Nat := 64
/-- Lines of the world. -/
def worldLines : Nat := 480

/-- The position is in this tile column of the world. -/
structure AtColumn (v : UInt16) (c : Nat) : Prop where
  column : field v 0 5 = c % 32
  right : field v 10 1 = c / 32

/-- The position is in this line of the world. -/
structure AtLine (v : UInt16) (l : Nat) : Prop where
  row : field v 5 5 = l % 240 / 8
  lower : field v 11 1 = l / 240
  fine : field v 12 3 = l % 8

theorem AtColumn.of_fields {v w : UInt16} {c : Nat} (h : AtColumn v c)
    (hcolumn : field w 0 5 = field v 0 5) (hright : field w 10 1 = field v 10 1) : AtColumn w c :=
  ⟨hcolumn.trans h.column, hright.trans h.right⟩

theorem AtLine.of_fields {v w : UInt16} {l : Nat} (h : AtLine v l)
    (hrow : field w 5 5 = field v 5 5) (hlower : field w 11 1 = field v 11 1)
    (hfine : field w 12 3 = field v 12 3) : AtLine w l :=
  ⟨hrow.trans h.row, hlower.trans h.lower, hfine.trans h.fine⟩

/-! ## Merging -/

theorem field_merge_taken {mask : UInt16} {lo len : Nat} (source w : UInt16)
    (h : field mask lo len = 2 ^ len - 1) (hnot : field (~~~mask) lo len = 0) :
    field (merge mask source w) lo len = field source lo len := by
  rw [merge, field_or, field_and_all h, field_and_none hnot, Nat.zero_or]

theorem field_merge_kept {mask : UInt16} {lo len : Nat} (source w : UInt16)
    (h : field mask lo len = 0) (hnot : field (~~~mask) lo len = 2 ^ len - 1) :
    field (merge mask source w) lo len = field w lo len := by
  rw [merge, field_or, field_and_none h, field_and_all hnot, Nat.or_zero]

/-- At the start of a line the column comes from `t`. -/
theorem atColumn_copyHorizontal {t : UInt16} {c : Nat} (h : AtColumn t c) (v : UInt16) :
    AtColumn (copyHorizontal v t) c :=
  h.of_fields (field_merge_taken t v rfl rfl) (field_merge_taken t v rfl rfl)

/-- And the line stays. -/
theorem AtLine.copyHorizontal {v : UInt16} {l : Nat} (h : AtLine v l) (t : UInt16) :
    AtLine (copyHorizontal v t) l :=
  h.of_fields (field_merge_kept t v rfl rfl) (field_merge_kept t v rfl rfl)
    (field_merge_kept t v rfl rfl)

/-- At the start of a frame the line comes from `t`. -/
theorem atLine_copyVertical {t : UInt16} {l : Nat} (h : AtLine t l) (v : UInt16) :
    AtLine (copyVertical v t) l :=
  h.of_fields (field_merge_taken t v rfl rfl) (field_merge_taken t v rfl rfl)
    (field_merge_taken t v rfl rfl)

/-- And the column stays. -/
theorem AtColumn.copyVertical {v : UInt16} {c : Nat} (h : AtColumn v c) (t : UInt16) :
    AtColumn (copyVertical v t) c :=
  h.of_fields (field_merge_kept t v rfl rfl) (field_merge_kept t v rfl rfl)

/-! ## To the right -/

theorem and_columnBits_eq_iff (v : UInt16) : v &&& columnBits = 31 ↔ field v 0 5 = 31 := by
  rw [← UInt16.toNat_inj, Word.toNat_and_low v 5 rfl]
  simp only [field, UInt16.reduceToNat, Nat.pow_zero, Nat.div_one]

/-- The last column of a table is followed by the first one of the other. -/
theorem nextColumn_wrap {v : UInt16} (h : field v 0 5 = 31) :
    nextColumn v = (v &&& ~~~columnBits) ^^^ rightTable := by
  rw [nextColumn, if_pos (beq_iff_eq.2 ((and_columnBits_eq_iff v).2 h))]

theorem toNat_nextColumn {v : UInt16} (h : field v 0 5 ≠ 31) :
    (nextColumn v).toNat = v.toNat + 1 := by
  have hne : ¬ (v &&& columnBits == 31) = true := fun he =>
    h ((and_columnBits_eq_iff v).1 (beq_iff_eq.1 he))
  have hv := v.toNat_lt
  simp only [field] at h
  rw [nextColumn, if_neg hne, UInt16.toNat_add]
  simp only [UInt16.reduceToNat]
  omega

theorem AtColumn.nextColumn {v : UInt16} {c : Nat} (h : AtColumn v c) (hc : c < worldColumns) :
    AtColumn (nextColumn v) ((c + 1) % worldColumns) := by
  obtain ⟨hcolumn, hright⟩ := h
  simp only [worldColumns] at hc ⊢
  by_cases hlast : field v 0 5 = 31
  · -- around the edge of a table: the column starts over, the table bit flips
    rw [nextColumn_wrap hlast]
    constructor
    · rw [field_xor_none rfl, field_and_none rfl]
      omega
    · rw [field_xor, field_and_all rfl, hright]
      have : c / 32 = 0 ∨ c / 32 = 1 := by omega
      obtain htable | htable := this
      · rw [htable]
        show 1 = _
        omega
      · rw [htable]
        show 0 = _
        omega
  · have hnext := toNat_nextColumn hlast
    simp only [field] at hcolumn hright hlast
    constructor
    · simp only [field, hnext]
      omega
    · simp only [field, hnext]
      omega

theorem AtLine.nextColumn {v : UInt16} {l : Nat} (h : AtLine v l) : AtLine (nextColumn v) l := by
  by_cases hlast : field v 0 5 = 31
  · rw [nextColumn_wrap hlast]
    refine h.of_fields ?_ ?_ ?_
    · rw [field_xor_none rfl, field_and_all rfl]
    · rw [field_xor_none rfl, field_and_all rfl]
    · rw [field_xor_none rfl, field_and_all rfl]
  · have hnext := toNat_nextColumn hlast
    simp only [field] at hlast
    refine h.of_fields ?_ ?_ ?_
    all_goals
      simp only [field, hnext]
      omega

/-! ## Down -/

theorem and_fineBits_eq_iff (v : UInt16) : v &&& fineBits = fineBits ↔ field v 12 3 = 7 := by
  rw [← UInt16.toNat_inj, Word.toNat_and_field v 12 3 rfl]
  show field v 12 3 * 2 ^ 12 = 0x7000 ↔ _
  omega

theorem toNat_nextRow {v : UInt16} (h : field v 12 3 ≠ 7) :
    (nextRow v).toNat = v.toNat + 0x1000 := by
  have hne : (v &&& fineBits != fineBits) = true :=
    bne_iff_ne.2 fun he => h ((and_fineBits_eq_iff v).1 he)
  have hv := v.toNat_lt
  simp only [field] at h
  rw [nextRow, if_pos hne, UInt16.toNat_add]
  simp only [UInt16.reduceToNat]
  omega

theorem toNat_row (v : UInt16) : ((v &&& rowBits) >>> 5).toNat = field v 5 5 := by
  have hrow := @Word.toNat_and_field rowBits v 5 5 rfl
  have hlt := field_lt v 5 5
  rw [UInt16.toNat_shiftRight, hrow]
  simp only [field, UInt16.reduceToNat, Nat.reduceMod, Nat.shiftRight_eq_div_pow] at hlt ⊢
  omega

/-- At the last row of a tile the position goes to another tile row. -/
theorem nextRow_wrap {v : UInt16} (h : field v 12 3 = 7) :
    nextRow v =
      if field v 5 5 = 29 then atRow 0 v ^^^ lowerTable
      else if field v 5 5 = 31 then atRow 0 v
      else atRow ((v &&& rowBits) >>> 5 + 1) v := by
  have hfine : ¬ (v &&& fineBits != fineBits) = true := by
    rw [(and_fineBits_eq_iff v).2 h]
    decide
  have hrow (n : UInt16) : ((v &&& rowBits) >>> 5 == n) = true ↔ field v 5 5 = n.toNat := by
    rw [beq_iff_eq, ← UInt16.toNat_inj, toNat_row]
  rw [nextRow, if_neg hfine]
  simp only [hrow, UInt16.reduceToNat]

theorem field_atRow_row (row v : UInt16) : field (atRow row v) 5 5 = row.toNat % 32 := by
  rw [atRow, field_merge_taken _ _ rfl rfl]
  simp only [field, UInt16.toNat_shiftLeft, UInt16.reduceToNat, Nat.reduceMod, Nat.shiftLeft_eq]
  omega

theorem field_atRow_fine (row v : UInt16) : field (atRow row v) 12 3 = 0 := by
  rw [atRow, field_merge_kept _ _ rfl rfl, field_and_none rfl]

theorem field_atRow_lower (row v : UInt16) : field (atRow row v) 11 1 = field v 11 1 := by
  rw [atRow, field_merge_kept _ _ rfl rfl, field_and_all rfl]

theorem AtLine.nextRow {v : UInt16} {l : Nat} (h : AtLine v l) (hl : l < worldLines) :
    AtLine (nextRow v) ((l + 1) % worldLines) := by
  obtain ⟨hrow, hlower, hfine⟩ := h
  simp only [worldLines] at hl ⊢
  by_cases hlast : field v 12 3 = 7
  · rw [nextRow_wrap hlast]
    by_cases hend : field v 5 5 = 29
    · rw [if_pos hend]
      refine ⟨?_, ?_, ?_⟩
      · rw [field_xor_none rfl, field_atRow_row]
        simp only [UInt16.reduceToNat]
        omega
      · rw [field_xor, field_atRow_lower, hlower]
        have : l / 240 = 0 ∨ l / 240 = 1 := by omega
        obtain htable | htable := this
        · rw [htable]
          show 1 = _
          omega
        · rw [htable]
          show 0 = _
          omega
      · rw [field_xor_none rfl, field_atRow_fine]
        omega
    · -- a line of the world is never in the attribute rows, where no table follows
      have hinside : field v 5 5 ≠ 31 := by omega
      rw [if_neg hend, if_neg hinside]
      refine ⟨?_, ?_, ?_⟩
      · rw [field_atRow_row, UInt16.toNat_add, toNat_row, hrow]
        simp only [UInt16.reduceToNat]
        omega
      · rw [field_atRow_lower, hlower]
        omega
      · rw [field_atRow_fine]
        omega
  · -- within a tile only the three highest bits change
    have hnext := toNat_nextRow hlast
    have hinside : l % 8 ≠ 7 := hfine ▸ hlast
    have hworld : (l + 1) % 480 = l + 1 := by omega
    have hsame : (l + 1) % 240 / 8 = l % 240 / 8 := by omega
    have htable : (l + 1) / 240 = l / 240 := by omega
    have hdown : (l + 1) % 8 = l % 8 + 1 := by omega
    simp only [field] at hrow hlower hfine hlast
    rw [hworld]
    refine ⟨?_, ?_, ?_⟩
    · rw [hsame, ← hrow]
      simp only [field, hnext]
      omega
    · rw [htable, ← hlower]
      simp only [field, hnext]
      omega
    · rw [hdown, ← hfine]
      simp only [field, hnext]
      omega

/-! ## Where a frame begins -/

/-- The word for a nametable, `right` and `lower` being 0 or 1, and a scroll of
`x` and `y` dots in it. The column within the tile is not part of the word. -/
def origin (right lower x y : Nat) : UInt16 :=
  .ofNat (x / 8 + 32 * (y / 8) + 1024 * right + 2048 * lower + 4096 * (y % 8))

variable {right lower x y : Nat}

theorem toNat_origin (hright : right < 2) (hlower : lower < 2) (hx : x < 256) (hy : y < 240) :
    (origin right lower x y).toNat =
      x / 8 + 32 * (y / 8) + 1024 * right + 2048 * lower + 4096 * (y % 8) := by
  rw [origin, UInt16.toNat_ofNat']
  omega

/-- The digits of a start position are its fields. -/
theorem fields_origin (hright : right < 2) (hlower : lower < 2) (hx : x < 256) (hy : y < 240) :
    field (origin right lower x y) 0 5 = x / 8 ∧ field (origin right lower x y) 5 5 = y / 8 ∧
      field (origin right lower x y) 10 1 = right ∧ field (origin right lower x y) 11 1 = lower ∧
      field (origin right lower x y) 12 3 = y % 8 := by
  have hcolumn : x / 8 < 32 := by omega
  have hrow : y / 8 < 32 := by omega
  have hfine : y % 8 < 8 := by omega
  simp only [field, toNat_origin hright hlower hx hy]
  generalize x / 8 = a at *
  generalize y / 8 = b at *
  generalize y % 8 = c at *
  omega

theorem atColumn_origin (hright : right < 2) (hlower : lower < 2) (hx : x < 256) (hy : y < 240) :
    AtColumn (origin right lower x y) (32 * right + x / 8) := by
  obtain ⟨hcolumn, -, htable, -, -⟩ := fields_origin hright hlower hx hy
  constructor
  · rw [hcolumn]
    omega
  · rw [htable]
    omega

theorem atLine_origin (hright : right < 2) (hlower : lower < 2) (hx : x < 256) (hy : y < 240) :
    AtLine (origin right lower x y) (240 * lower + y) := by
  obtain ⟨-, hrow, -, htable, hfine⟩ := fields_origin hright hlower hx hy
  refine ⟨?_, ?_, ?_⟩
  · rw [hrow]
    omega
  · rw [htable]
    omega
  · rw [hfine]
    omega

end Famicom.Video.Scroll
