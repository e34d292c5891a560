import Famicom.Proofs.Video.Blanking
import Famicom.Proofs.Video.InRange
import Famicom.Proofs.Video.Position

/-!
# The data register as a port to memory

The processor sees the memories of the picture unit through one register only. It sets
the address with two writes, and every access through the data register moves the
address on. Reads come one access late, and one byte has many addresses: tables and
palette appear again and again, the board joins tables, and the palettes share their
backdrops.

* **aliases** — two addresses have one cell if they stand for the same byte, in the
  tables (`cell_eq_iff`) and in the palette (`paletteCell_eq_iff`);
* **step** — an access with a write to the data register changes what the addresses of
  one byte hold, and every other access changes nothing of it (`Remembers.access`);
* **run** — so after any sequence of accesses each address holds what was written last to
  its byte (`Remembers.accessAll`);
* **address** — two writes set it (`address_pair`), and every access moves it on
  (`toNat_skip`).

`dataPort_faithful` says what is read and where the address goes.
-/

namespace Famicom.Cartridge.Mirroring

/-- The board joins these two of the four tables. -/
def Joins : Mirroring → Nat → Nat → Prop
  | horizontal, i, j => i / 2 = j / 2
  | vertical, i, j => i % 2 = j % 2
  | singleLower, _, _ => True
  | singleUpper, _, _ => True
  | fourScreen, i, j => i = j

instance : (m : Mirroring) → (i j : Nat) → Decidable (m.Joins i j)
  | horizontal, i, j => inferInstanceAs (Decidable (i / 2 = j / 2))
  | vertical, i, j => inferInstanceAs (Decidable (i % 2 = j % 2))
  | singleLower, _, _ => inferInstanceAs (Decidable True)
  | singleUpper, _, _ => inferInstanceAs (Decidable True)
  | fourScreen, i, j => inferInstanceAs (Decidable (i = j))

/-- Two addresses of tables stand for the same byte: it has the same place in both
tables, and these are joined. -/
def SameByte (m : Mirroring) (a b : UInt16) : Prop :=
  m.Joins (a.toNat % 0x1000 / 0x400) (b.toNat % 0x1000 / 0x400) ∧
    a.toNat % 0x400 = b.toNat % 0x400

instance (m : Mirroring) (a b : UInt16) : Decidable (m.SameByte a b) :=
  inferInstanceAs (Decidable (_ ∧ _))

/-- The wiring joins tables. -/
theorem tables_eq_iff (m : Mirroring) (i j : Fin 4) : m.tables[i] = m.tables[j] ↔ m.Joins i j := by
  revert i j
  cases m <;> decide

theorem cell_eq_iff (m : Mirroring) (a b : UInt16) : m.cell a = m.cell b ↔ m.SameByte a b := by
  have ha : a.toNat % 0x1000 / 0x400 < 4 := by omega
  have hb : b.toNat % 0x1000 / 0x400 < 4 := by omega
  have hplace (n : Nat) : n % 0x1000 % 0x400 = n % 0x400 := by omega
  have htables := m.tables_eq_iff ⟨_, ha⟩ ⟨_, hb⟩
  simp only [Fin.getElem_fin] at htables
  rw [SameByte, ← htables, cell, cell, hplace, hplace]
  omega

end Famicom.Cartridge.Mirroring

namespace Famicom.Video

open Cartridge Scroll Word

/-- Two addresses of the palette stand for the same entry. There are 32 of them, and the
backdrops of the palettes for sprites are those of the palettes for the background. -/
def SameEntry (a b : UInt16) : Prop :=
  a.toNat % 32 = b.toNat % 32 ∨
    a.toNat % 4 = 0 ∧ b.toNat % 4 = 0 ∧ a.toNat % 16 = b.toNat % 16

instance (a b : UInt16) : Decidable (SameEntry a b) :=
  inferInstanceAs (Decidable (_ ∨ _))

theorem paletteCell_eq_iff (a b : UInt16) :
    paletteCell a.toNat = paletteCell b.toNat ↔ SameEntry a b := by
  simp only [paletteCell, SameEntry]
  split <;> split <;> omega

namespace DataPort

open Blanking

/-! ## Histories -/

/-- The write to the data register, with the address it goes to. -/
def write? (p : PictureUnit) : Access → Option (UInt16 × UInt8)
  | .write register value =>
    if register &&& 0x07 = 7 then some (p.scroll.v &&& 0x3FFF, value) else none
  | _ => none

/-- The writes to the data register among some accesses, the first one in front. -/
def writes : List Access → PictureUnit × Board → List (UInt16 × UInt8)
  | [], _ => []
  | a :: rest, s => (write? s.1 a).toList ++ writes rest (access a s)

/-- The write to the control register. -/
def control? : Access → Option UInt8
  | .write register value => if register &&& 0x07 = 0 then some value else none
  | _ => none

/-- The last byte that was written to the control register, zero if none was. -/
def lastControl (accesses : List Access) : UInt8 :=
  (accesses.filterMap control?).getLast?.getD 0

/-- The last byte that was written to one of these addresses, zero if none was. -/
def lastByte (same : UInt16 → Prop) [DecidablePred same] (log : List (UInt16 × UInt8)) : UInt8 :=
  ((log.filter fun w => same w.1).getLast?.map Prod.snd).getD 0

/-- The last byte that was written to an address of the tables that stands for the same
byte. -/
def lastInTables (m : Mirroring) (address : UInt16) (log : List (UInt16 × UInt8)) : UInt8 :=
  lastByte (fun a => 0x2000 ≤ a ∧ a < 0x3F00 ∧ m.SameByte a address) log

/-- The last byte that was written to an address of the palette that stands for the same
entry. -/
def lastInPalette (address : UInt16) (log : List (UInt16 × UInt8)) : UInt8 :=
  lastByte (fun a => 0x3F00 ≤ a ∧ SameEntry a address) log

/-- What an address holds after these writes: a byte of the patterns, which belong to the
board, or what was written last. -/
def byteAt (m : Mirroring) (b : Board) (log : List (UInt16 × UInt8)) (address : UInt16) : UInt8 :=
  if address < 0x2000 then b.readPattern address
  else if address < 0x3F00 then lastInTables m address log
  else lastInPalette address log

/-- The mirroring is the same at every access. -/
def Wired (m : Mirroring) : List Access → PictureUnit × Board → Prop
  | [], s => s.2.mirroring = m
  | a :: rest, s => s.2.mirroring = m ∧ Wired m rest (access a s)

theorem lastByte_append {same : UInt16 → Prop} [DecidablePred same] (log : List (UInt16 × UInt8))
    (w : UInt16 × UInt8) :
    lastByte same (log ++ [w]) = if same w.1 then w.2 else lastByte same log := by
  unfold lastByte
  by_cases h : same w.1
  · simp [h]
  · simp [h]

/-- The control register is replaced by each write to it. -/
theorem getLast_control (a : Access) (rest : List Access) (control : UInt8) :
    ((a :: rest).filterMap control?).getLast?.getD control =
      (rest.filterMap control?).getLast?.getD ((control? a).getD control) := by
  cases h : control? a with
  | none => rw [List.filterMap_cons_none h, Option.getD_none]
  | some value =>
      rw [List.filterMap_cons_some h, List.getLast?_cons, Option.getD_some, Option.getD_some]

/-! ## What an access changes -/

variable {m : Mirroring} {log : List (UInt16 × UInt8)} {p : PictureUnit} {b : Board}

/-- Tables and palette hold at each place what was written last to the byte there. -/
structure Remembers (m : Mirroring) (log : List (UInt16 × UInt8)) (p : PictureUnit) : Prop where
  tables : ∀ address, p.nametables.read (m.cell address) = lastInTables m address log
  palette : ∀ address : UInt16,
    p.palette.read (paletteCell address.toNat) = lastInPalette address log

theorem remembers_powerOn (m : Mirroring) : Remembers m [] .powerOn :=
  ⟨fun _ => Memory.read_filled _ _, fun _ => Memory.read_filled _ _⟩

/-- The invariant is about tables and palette. -/
theorem Remembers.of_eq (h : Remembers m log p) {q : PictureUnit}
    (htables : q.nametables = p.nametables) (hpalette : q.palette = p.palette) :
    Remembers m log q :=
  ⟨htables ▸ h.tables, hpalette ▸ h.palette⟩

/-- A pattern byte goes to the board, and no address of the unit holds it. -/
theorem Remembers.pattern (h : Remembers m log p) {a : UInt16} (ha : a < 0x2000) (value : UInt8) :
    Remembers m (log ++ [(a, value)]) p := by
  have htables : ¬ 0x2000 ≤ a := UInt16.not_le.2 ha
  have hpalette : ¬ 0x3F00 ≤ a := fun hle => htables (UInt16.le_trans (by decide) hle)
  refine ⟨fun address => ?_, fun address => ?_⟩
  · rw [lastInTables, lastByte_append, if_neg fun hw => htables hw.1]
    exact h.tables address
  · rw [lastInPalette, lastByte_append, if_neg fun hw => hpalette hw.1]
    exact h.palette address

/-- A byte of a table is the last one for all addresses that stand for the same byte. -/
theorem Remembers.table (h : Remembers m log p) {a : UInt16} (hlow : 0x2000 ≤ a)
    (hhigh : a < 0x3F00) (value : UInt8) :
    Remembers m (log ++ [(a, value)])
      { p with nametables := p.nametables.write (m.cell a) value } := by
  have hpalette : ¬ 0x3F00 ≤ a := UInt16.not_le.2 hhigh
  refine ⟨fun address => ?_, fun address => ?_⟩
  · rw [Memory.read_write, Nat.mod_eq_of_lt (m.cell_lt _), Nat.mod_eq_of_lt (m.cell_lt _),
      lastInTables, lastByte_append, h.tables address]
    simp only [hlow, hhigh, true_and, m.cell_eq_iff a address]
    rfl
  · rw [lastInPalette, lastByte_append, if_neg fun hw => hpalette hw.1]
    exact h.palette address

/-- A colour is the last one for all addresses that stand for the same entry. -/
theorem Remembers.entry (h : Remembers m log p) {a : UInt16} (ha : 0x3F00 ≤ a) (value : UInt8) :
    Remembers m (log ++ [(a, value)])
      { p with palette := p.palette.write (paletteCell a.toNat) value } := by
  have htables : ¬ a < 0x3F00 := UInt16.not_lt.2 ha
  refine ⟨fun address => ?_, fun address => ?_⟩
  · rw [lastInTables, lastByte_append, if_neg fun hw => htables hw.2.1]
    exact h.tables address
  · rw [Memory.read_write, Nat.mod_eq_of_lt (paletteCell_lt _),
      Nat.mod_eq_of_lt (paletteCell_lt _), lastInPalette, lastByte_append, h.palette address]
    simp only [ha, true_and, paletteCell_eq_iff a address]
    rfl

theorem Remembers.store (h : Remembers m log p) (hm : b.mirroring = m) (v : UInt16)
    (value : UInt8) :
    Remembers m (log ++ [(v &&& 0x3FFF, value)]) (p.store b v value).1 := by
  unfold PictureUnit.store
  simp only [hm]
  split
  case isTrue hlow => exact h.pattern hlow value
  case isFalse hlow =>
    split
    case isTrue hhigh => exact h.table (UInt16.not_lt.1 hlow) hhigh value
    case isFalse hhigh => exact h.entry (UInt16.not_lt.1 hhigh) value

/-- Reading a register leaves tables, palette and control alone. -/
theorem readRegister_keeps (p : PictureUnit) (b : Board) (register : UInt16) :
    (p.readRegister b register).2.nametables = p.nametables ∧
      (p.readRegister b register).2.palette = p.palette ∧
      (p.readRegister b register).2.control = p.control := by
  unfold PictureUnit.readRegister
  split
  · exact ⟨rfl, rfl, rfl⟩
  · exact ⟨rfl, rfl, rfl⟩
  · unfold PictureUnit.readData
    simp only []
    split <;> exact ⟨rfl, rfl, rfl⟩
  · exact ⟨rfl, rfl, rfl⟩

/-- Storing a byte leaves control and address alone. -/
theorem store_keeps (p : PictureUnit) (b : Board) (v : UInt16) (value : UInt8) :
    (p.store b v value).1.control = p.control ∧ (p.store b v value).1.scroll = p.scroll := by
  unfold PictureUnit.store
  simp only []
  split
  · exact ⟨rfl, rfl⟩
  split <;> exact ⟨rfl, rfl⟩

/-- The data register stores, and the other registers leave tables and palette alone. -/
theorem Remembers.writeRegister (h : Remembers m log p) (hm : b.mirroring = m)
    (register : UInt16) (value : UInt8) :
    Remembers m (log ++ (write? p (.write register value)).toList)
      (p.writeRegister b register value).1 := by
  have hp : Remembers m log { p with lastWrite := value } := h.of_eq rfl rfl
  by_cases hdata : register &&& 0x07 = 7
  · have hwritten : write? p (.write register value) = some (p.scroll.v &&& 0x3FFF, value) :=
      if_pos hdata
    rw [hwritten]
    unfold PictureUnit.writeRegister
    simp only [hdata]
    exact (hp.store hm p.scroll.v value).of_eq rfl rfl
  · have hnothing : write? p (.write register value) = none := if_neg hdata
    rw [hnothing, Option.toList_none, List.append_nil]
    unfold PictureUnit.writeRegister
    simp only []
    split
    case h_7 hseven => exact absurd hseven hdata
    all_goals exact h.of_eq rfl rfl

/-- **Step.** After an access each address holds what was written last to its byte, if it
did before. -/
theorem Remembers.access {s : PictureUnit × Board} (h : Remembers m log s.1)
    (hm : s.2.mirroring = m) (a : Access) :
    Remembers m (log ++ (write? s.1 a).toList) (Blanking.access a s).1 := by
  obtain ⟨p, b⟩ := s
  cases a with
  | read register =>
      obtain ⟨htables, hpalette, -⟩ := readRegister_keeps p b register
      exact (List.append_nil log).symm ▸ h.of_eq htables hpalette
  | write register value => exact h.writeRegister hm register value
  | writeSprite address value => exact (List.append_nil log).symm ▸ h.of_eq rfl rfl
  | writeBoard address value => exact (List.append_nil log).symm ▸ h

theorem control_access (a : Access) (s : PictureUnit × Board) :
    (access a s).1.control = (control? a).getD s.1.control := by
  obtain ⟨p, b⟩ := s
  cases a with
  | read register => exact (readRegister_keeps p b register).2.2
  | write register value =>
      show (p.writeRegister b register value).1.control = _
      by_cases hcontrol : register &&& 0x07 = 0
      · simp only [PictureUnit.writeRegister, control?, hcontrol, if_true, Option.getD_some]
        rfl
      · rw [control?, if_neg hcontrol, Option.getD_none]
        unfold PictureUnit.writeRegister
        simp only []
        split
        case h_1 hzero => exact absurd hzero hcontrol
        case h_7 => exact (store_keeps { p with lastWrite := value } b p.scroll.v value).1
        all_goals rfl
  | writeSprite address value => rfl
  | writeBoard address value => rfl

/-! ## What a sequence of accesses changes -/

/-- **Run.** -/
theorem Remembers.accessAll {s : PictureUnit × Board} {accesses : List Access}
    (h : Remembers m log s.1) (hwired : Wired m accesses s) :
    Remembers m (log ++ writes accesses s) (Blanking.accessAll accesses s).1 ∧
      (Blanking.accessAll accesses s).2.mirroring = m := by
  induction accesses generalizing log s with
  | nil =>
      rw [writes, List.append_nil]
      exact ⟨h, hwired⟩
  | cons a rest ih =>
      obtain ⟨hm, hrest⟩ := hwired
      rw [writes, ← List.append_assoc]
      exact ih (h.access hm a) hrest

theorem control_accessAll (accesses : List Access) (s : PictureUnit × Board) :
    (accessAll accesses s).1.control =
      (accesses.filterMap control?).getLast?.getD s.1.control := by
  induction accesses generalizing s with
  | nil => rfl
  | cons a rest ih => rw [accessAll, ih, control_access, getLast_control]

theorem Remembers.fetch (h : Remembers m log p) (hm : b.mirroring = m) (address : UInt16) :
    p.fetch b address = byteAt m b log (address &&& 0x3FFF) := by
  unfold PictureUnit.fetch byteAt
  simp only [hm]
  split
  · rfl
  split
  · exact h.tables _
  · exact h.palette _

/-! ### Wiring -/

/-- Accesses to the picture unit itself leave the mirroring alone. -/
theorem mirroring_writeRegister (p : PictureUnit) (b : Board) (register : UInt16)
    (value : UInt8) : (p.writeRegister b register value).2.mirroring = b.mirroring := by
  unfold PictureUnit.writeRegister
  simp only []
  split
  case h_7 =>
    -- a pattern that is written changes no register of the board
    unfold PictureUnit.store
    simp only []
    split
    · rfl
    split <;> rfl
  all_goals rfl

/-- Where the board is not written by the processor, its mirroring is fixed. -/
theorem wired_of_forall {accesses : List Access}
    (h : ∀ address value, Access.writeBoard address value ∉ accesses)
    (s : PictureUnit × Board) : Wired s.2.mirroring accesses s := by
  induction accesses generalizing s with
  | nil => rfl
  | cons a rest ih =>
      obtain ⟨p, b⟩ := s
      have hrest (address : UInt16) (value : UInt8) : Access.writeBoard address value ∉ rest :=
        fun hmem => h address value (.tail _ hmem)
      refine ⟨rfl, ?_⟩
      cases a with
      | read register => exact ih hrest (access (.read register) (p, b))
      | write register value =>
          have hm := mirroring_writeRegister p b register value
          exact hm ▸ ih hrest (p.writeRegister b register value)
      | writeSprite address value => exact ih hrest (access (.writeSprite address value) (p, b))
      | writeBoard address value => exact absurd (.head rest) (h address value)

/-! ## The address -/

/-- The address moves on by a row or by a column. -/
theorem toNat_skip (p : PictureUnit) :
    p.skip.scroll.v.toNat =
      (p.scroll.v.toNat + if p.control.toNat.testBit 2 then 32 else 1) % 0x8000 := by
  unfold PictureUnit.skip Scroll.skip
  rw [Byte.hasBits_eq_testBit p.control 2 rfl, Word.toNat_and_low _ 15 rfl, UInt16.toNat_add]
  split
  · simp only [UInt16.reduceToNat]
    omega
  · simp only [UInt16.reduceToNat]
    omega

/-- Two writes to the address register set the address: six bits of the first byte count,
and all of the second. -/
theorem address_pair {s : Scroll} (h : s.InRange) (hfirst : s.second = false) (high low : UInt8) :
    ((s.writeAddress high).writeAddress low).v.toNat = high.toNat % 64 * 256 + low.toNat := by
  have hpair : ((s.writeAddress high).writeAddress low).v =
      merge 0x00FF low.toUInt16 (merge 0x7F00 ((high.toUInt16 &&& 0x3F) <<< 8) s.t) := by
    simp only [Scroll.writeAddress, hfirst, Bool.false_eq_true, if_false, if_true]
  have hbytes (w : UInt16) : w.toNat = field w 8 8 * 256 + field w 0 8 := by
    have := w.toNat_lt
    simp only [field]
    omega
  -- the first byte leaves the lowest eight bits and the sixteenth, which is zero
  have hfirstByte (source : UInt16) :
      field (merge 0x7F00 source s.t) 8 8 = field source 8 7 := by
    have ht := UInt16.lt_iff_toNat_lt.1 h.t
    have htop : field s.t (8 + 7) 1 = 0 := by
      simp only [UInt16.reduceToNat] at ht
      simp only [field]
      omega
    rw [field_append _ 8 7 1, field_merge_taken _ _ rfl rfl, field_merge_kept _ _ rfl rfl, htop]
    rfl
  have hsecondByte (source w : UInt16) : field (merge 0x00FF source w) 8 8 = field w 8 8 :=
    field_merge_kept _ _ rfl rfl
  have hlowest (source w : UInt16) : field (merge 0x00FF source w) 0 8 = field source 0 8 :=
    field_merge_taken _ _ rfl rfl
  have hhigh : field ((high.toUInt16 &&& 0x3F) <<< 8) 8 7 = high.toNat % 64 := by
    rw [field, UInt16.toNat_shiftLeft, Word.toNat_and_low _ 6 rfl]
    simp only [UInt16.reduceToNat, Nat.reduceMod, Nat.shiftLeft_eq, UInt8.toNat_toUInt16]
    omega
  have hlow : field low.toUInt16 0 8 = low.toNat := by
    have := low.toNat_lt
    rw [field, UInt8.toNat_toUInt16]
    omega
  rw [hpair, hbytes, hsecondByte, hfirstByte, hhigh, hlowest, hlow]

/-! ## Reading and writing -/

section Data

variable (p : PictureUnit) (b : Board)

theorem readData_value :
    (p.readData b).1 =
      if p.scroll.v &&& 0x3FFF < 0x3F00 then p.readBuffer
      else p.fetch b (p.scroll.v &&& 0x3FFF) := by
  unfold PictureUnit.readData
  simp only []
  split <;> rfl

theorem readData_buffer :
    (p.readData b).2.readBuffer =
      p.fetch b
        (if p.scroll.v &&& 0x3FFF < 0x3F00 then p.scroll.v &&& 0x3FFF
        else (p.scroll.v &&& 0x3FFF) - 0x1000) := by
  unfold PictureUnit.readData
  simp only []
  split <;> rfl

theorem readData_scroll : (p.readData b).2.scroll = p.skip.scroll := by
  unfold PictureUnit.readData
  simp only []
  split <;> rfl

variable {register : UInt16} (h : register &&& 0x07 = 7)

include h

theorem readRegister_data : p.readRegister b register = p.readData b := by
  simp only [PictureUnit.readRegister, h]

theorem writeRegister_scroll (value : UInt8) :
    (p.writeRegister b register value).1.scroll = p.skip.scroll := by
  obtain ⟨hcontrol, hscroll⟩ := store_keeps { p with lastWrite := value } b p.scroll.v value
  simp only [PictureUnit.writeRegister, h, PictureUnit.skip, hcontrol, hscroll]

end Data

/-- Behind the palette there are the tables. -/
theorem behindPalette {address : UInt16} (hlow : 0x3F00 ≤ address) (hhigh : address < 0x4000) :
    (address - 0x1000) &&& 0x3FFF = address - 0x1000 := by
  have hle : 0x1000 ≤ address := UInt16.le_trans (by decide) hlow
  have hbound : address - 0x1000 < 0x4000 := by
    rw [UInt16.lt_iff_toNat_lt] at hhigh ⊢
    rw [UInt16.toNat_sub_of_le _ _ hle]
    omega
  exact Word.and_low_eq 14 rfl rfl hbound

/-- **The data register is a faithful port.** Let the processor access a picture unit in
any way from power-on, with a fixed mirroring and no dot between the accesses. Below the
palette it reads what the buffer held, and in the palette the last byte that was written
to the same entry. Afterwards the buffer holds the pattern byte at the address, or the last
byte that was written to the same byte of the tables; for an address of the palette it is
the one of the tables behind it. With every access, be it a read or a write, the address
moves on by 32 or by 1, as bit 2 of the control register says. -/
theorem dataPort_faithful {m : Mirroring} {b : Board} {accesses : List Access}
    {register : UInt16} (hwired : Wired m accesses (.powerOn, b))
    (hregister : register &&& 0x07 = 7) :
    let s := accessAll accesses (.powerOn, b)
    let log := writes accesses (.powerOn, b)
    let v := s.1.scroll.v
    let address := v &&& 0x3FFF
    let next := (v.toNat + if (lastControl accesses).toNat.testBit 2 then 32 else 1) % 0x8000
    let read := s.1.readRegister s.2 register
    read.1 = (if address < 0x3F00 then s.1.readBuffer else byteAt m s.2 log address) ∧
      read.2.readBuffer =
        byteAt m s.2 log (if address < 0x3F00 then address else address - 0x1000) ∧
      read.2.scroll.v.toNat = next ∧
      ∀ value, (s.1.writeRegister s.2 register value).1.scroll.v.toNat = next := by
  intro s log v address next read
  obtain ⟨hremembers, hmirroring⟩ := (remembers_powerOn m).accessAll hwired
  have hfetch (a : UInt16) : s.1.fetch s.2 a = byteAt m s.2 log (a &&& 0x3FFF) :=
    hremembers.fetch hmirroring a
  have hcontrol : s.1.control = lastControl accesses := control_accessAll accesses (.powerOn, b)
  have hnext : s.1.skip.scroll.v.toNat = next := by
    rw [toNat_skip, hcontrol]
  -- the address is a place of the address space, and so is the one behind the palette
  have hlt : address < 0x4000 := Word.and_low_lt v 14 rfl rfl
  have hmask : address &&& 0x3FFF = address := Word.and_low_eq 14 rfl rfl hlt
  have hread : read = s.1.readData s.2 := readRegister_data s.1 s.2 hregister
  refine ⟨?_, ?_, ?_, ?_⟩
  · rw [hread, readData_value, hfetch, hmask]
  · rw [hread, readData_buffer, hfetch]
    split
    case isTrue => rw [hmask]
    case isFalse hpalette => rw [behindPalette (UInt16.not_lt.1 hpalette) hlt]
  · rw [hread, readData_scroll, hnext]
  · intro value
    rw [writeRegister_scroll s.1 s.2 hregister value, hnext]

/-- A backdrop of the palettes for sprites is written at $3F10, in steps of 32, and read
at $3F00. -/
theorem dataPort_faithful_backdrop :
    let accesses : List Access :=
      [.write 0 0x04, .write 6 0x3F, .write 6 0x10, .write 7 0x2A, .write 6 0x3F, .write 6 0x00]
    let b := Board.ofCartridge (.minimal .linear)
    Wired .horizontal accesses (.powerOn, b) ∧
    let s := accessAll accesses (.powerOn, b)
    let log := writes accesses (.powerOn, b)
    let v := s.1.scroll.v
    let address := v &&& 0x3FFF
    let next := (v.toNat + if (lastControl accesses).toNat.testBit 2 then 32 else 1) % 0x8000
    let read := s.1.readRegister s.2 0x2007
    read.1 = (if address < 0x3F00 then s.1.readBuffer else byteAt .horizontal s.2 log address) ∧
      read.2.readBuffer =
        byteAt .horizontal s.2 log (if address < 0x3F00 then address else address - 0x1000) ∧
      read.2.scroll.v.toNat = next ∧
      ∀ value, (s.1.writeRegister s.2 0x2007 value).1.scroll.v.toNat = next := by
  intro accesses b
  have hunit (address : UInt16) (value : UInt8) : Access.writeBoard address value ∉ accesses := by
    simp [accesses]
  have hwired : Wired .horizontal accesses (.powerOn, b) := wired_of_forall hunit (.powerOn, b)
  exact ⟨hwired, dataPort_faithful hwired rfl⟩

end DataPort

end Famicom.Video
