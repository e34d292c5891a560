import Famicom.Cartridge.Board
import Famicom.Proofs.Cartridge.InRange
import Famicom.Proofs.Checked

/-!
# Checked boards

The accesses of a board with every index and every sum checked. A window that
begins inside a memory gives offsets that fit their word, and the memory takes
them around its end. So the invariant of a board is enough: on a board whose
windows are inside (`Board.InRange`) all checks succeed, and the checked access is
the access.
-/

namespace Famicom

open Checked

/-- A byte of a chip, at the offset around its end. -/
def Rom.readAt (r : Rom) (offset : Nat) : Checked UInt8 := do
  let i ← index (offset % r.size) r.size
  return r.read i

theorem Rom.readAt_eq (r : Rom) (offset : Nat) : r.readAt offset = .ok (r.read offset) := by
  have hlt : offset % r.size < r.size := Nat.mod_lt _ r.nonempty
  rw [readAt, index_ok hlt]
  simp only [ok_bind, pure_eq, read, size, Nat.mod_mod]

namespace Cartridge

namespace Patterns

/-- A byte of the patterns, at the offset around their end. -/
def readAt (p : Patterns) (offset : Nat) : Checked UInt8 :=
  match p with
  | rom chip => chip.readAt offset
  | ram chip => chip.readAt (offset % patternRamSize)

/-- The patterns after a write. Read-only patterns are not reached. -/
def writeAt (p : Patterns) (offset : Nat) (value : UInt8) : Checked Patterns :=
  match p with
  | rom chip => return rom chip
  | ram chip => return ram (← chip.writeAt (offset % patternRamSize) value)

theorem readAt_eq (p : Patterns) (offset : Nat) : p.readAt offset = .ok (p.read offset) := by
  cases p with
  | rom chip => exact chip.readAt_eq offset
  | ram chip =>
      have hlt : offset % patternRamSize < patternRamSize := Nat.mod_lt _ (by decide)
      rw [readAt, chip.readAt_ok hlt, patternRamSize, chip.read_mod, read]

theorem writeAt_eq (p : Patterns) (offset : Nat) (value : UInt8) :
    p.writeAt offset value = .ok (p.write offset value) := by
  cases p with
  | rom chip => rfl
  | ram chip =>
      have hlt : offset % patternRamSize < patternRamSize := Nat.mod_lt _ (by decide)
      rw [writeAt, chip.writeAt_ok hlt, patternRamSize, chip.write_mod, write]
      rfl

end Patterns

/-! ## Windows -/

/-- The offset of a place `rest` bytes into a window of a memory. The window has to
begin inside, and the sum fits a word, since no memory has more than 2^63 bytes. -/
def windowOffset (size start rest : Nat) : Checked Nat :=
  if start < size then .ok (start + rest) else .error .overflow

/-- The offset of a place in one of several windows of `bank` bytes. -/
def offsetIn {n : Nat} (starts : Vector Nat n) (bank size place : Nat) : Checked Nat := do
  let start ← lookup starts (place / bank)
  windowOffset size start (place % bank)

theorem offsetIn_ok {n : Nat} {starts : Vector Nat n} {bank size place : Nat}
    (hstarts : starts.all (· < size) = true) (hplace : place / bank < n) :
    offsetIn starts bank size place = .ok (starts[place / bank] + place % bank) := by
  have hinside : starts[place / bank] < size := by
    rw [Vector.all_eq_true] at hstarts
    simpa using hstarts _ hplace
  rw [offsetIn, lookup_ok _ hplace, ok_bind, windowOffset, if_pos hinside]

namespace Circuit

/-- The offset of an address of the upper half in the program. -/
def checkedProgramOffset (c : Cartridge) (address : UInt16) (circuit : Circuit) : Checked Nat := do
  let place ← minus address 0x8000
  match circuit with
  | linear => return place.toNat
  | serial s => offsetIn s.programStarts SerialCircuit.programBank c.program.size place.toNat
  | counting s => offsetIn s.programStarts CountingCircuit.programBank c.program.size place.toNat

/-- The offset of an address of the picture unit in the patterns. -/
def checkedPatternOffset (c : Cartridge) (address : UInt16) (circuit : Circuit) : Checked Nat :=
  let place := address &&& 0x1FFF
  match circuit with
  | linear => return place.toNat
  | serial s => offsetIn s.patternStarts SerialCircuit.patternBank c.patterns.size place.toNat
  | counting s => offsetIn s.patternStarts CountingCircuit.patternBank c.patterns.size place.toNat

/-- A write to the upper half. The counting board has a table of registers. -/
def checkedWrite (c : Cartridge) (address : UInt16) (value : UInt8) (circuit : Circuit) :
    Checked Circuit :=
  match circuit with
  | counting s =>
    if (address >>> 13) &&& 0x03 = 0 ∧ address &&& 0x01 ≠ 0 then do
      let banks ← s.banks.writeAt s.selected.toNat value
      return counting (.locate c { s with banks })
    else return counting (s.write c address value)
  | _ => return circuit.write c address value

variable {c : Cartridge} {circuit : Circuit}

theorem checkedProgramOffset_eq (h : circuit.InRange c) {address : UInt16} (ha : 0x8000 ≤ address) :
    circuit.checkedProgramOffset c address = .ok (circuit.programOffset address) := by
  have hlt := address.toNat_lt
  have hle : 0x8000 ≤ address.toNat := UInt16.le_iff_toNat_le.1 ha
  have hplace : (address - 0x8000).toNat = address.toNat % 0x8000 := by
    rw [UInt16.toNat_sub_of_le _ _ ha]
    simp only [UInt16.reduceToNat]
    omega
  rw [checkedProgramOffset, minus_word ha, ok_bind]
  cases circuit with
  | linear => exact congrArg Except.ok hplace
  | serial s =>
      have hfits := (Bool.and_eq_true _ _).mp h.windows
      simp only [hplace]
      exact offsetIn_ok hfits.1 (by simp only [SerialCircuit.programBank]; omega)
  | counting s =>
      have hfits := (Bool.and_eq_true _ _).mp h.windows
      simp only [hplace]
      exact offsetIn_ok hfits.1 (by simp only [CountingCircuit.programBank]; omega)

theorem checkedPatternOffset_eq (h : circuit.InRange c) (address : UInt16) :
    circuit.checkedPatternOffset c address = .ok (circuit.patternOffset address) := by
  have hplace : (address &&& 0x1FFF).toNat = address.toNat % 0x2000 :=
    Word.toNat_and_low address 13 rfl
  simp only [checkedPatternOffset, hplace]
  cases circuit with
  | linear => rfl
  | serial s =>
      have hfits := (Bool.and_eq_true _ _).mp h.windows
      exact offsetIn_ok hfits.2 (by simp only [SerialCircuit.patternBank]; omega)
  | counting s =>
      have hfits := (Bool.and_eq_true _ _).mp h.windows
      exact offsetIn_ok hfits.2 (by simp only [CountingCircuit.patternBank]; omega)

theorem checkedWrite_eq (h : circuit.InRange c) (address : UInt16) (value : UInt8) :
    circuit.checkedWrite c address value = .ok (circuit.write c address value) := by
  cases circuit with
  | linear => rfl
  | serial s => rfl
  | counting s =>
      -- three bits of the last selection are kept
      have hselected := UInt8.lt_iff_toNat_lt.1 h.selected
      simp only [checkedWrite]
      by_cases hregister : (address >>> 13) &&& 0x03 = 0 ∧ address &&& 0x01 ≠ 0
      · rw [if_pos hregister, s.banks.writeAt_ok hselected, ok_bind]
        simp only [write, CountingCircuit.write, hregister.1]
        split
        all_goals simp_all
      · rw [if_neg hregister]
        rfl

end Circuit

def CountingCircuit.checkedCountLine (s : CountingCircuit) : Checked CountingCircuit :=
  if s.counter = 0 then return { s with counter := s.reload }
  else do
    let counter ← minus s.counter 1
    return { s with counter, request := s.request || (counter == 0 && s.enabled) }

theorem CountingCircuit.checkedCountLine_eq (s : CountingCircuit) :
    s.checkedCountLine = .ok s.countLine := by
  unfold checkedCountLine countLine
  by_cases hempty : s.counter = 0
  · rw [if_pos hempty, if_pos hempty]
    rfl
  · rw [if_neg hempty, if_neg hempty, minus_byte (Byte.one_le hempty)]
    rfl

def Mirroring.checkedCell (m : Mirroring) (address : UInt16) : Checked Nat := do
  let above ← minus address 0x2000
  let place := above &&& 0x0FFF
  let table ← lookup m.tables (place.toNat / 0x400)
  let cell ← plus (.ofNat (table * 0x400)) (place &&& 0x03FF)
  return cell.toNat

theorem Mirroring.checkedCell_eq (m : Mirroring) {address : UInt16} (ha : 0x2000 ≤ address) :
    m.checkedCell address = .ok (m.cell address) := by
  have hle : 0x2000 ≤ address.toNat := UInt16.le_iff_toNat_le.1 ha
  have hplace : ((address - 0x2000) &&& 0x0FFF).toNat = address.toNat % 0x1000 := by
    rw [Word.toNat_and_low _ 12 rfl, UInt16.toNat_sub_of_le _ _ ha]
    simp only [UInt16.reduceToNat]
    omega
  have hrest : (((address - 0x2000) &&& 0x0FFF) &&& 0x03FF).toNat =
      address.toNat % 0x1000 % 0x400 := by
    have hlow := @Word.toNat_and_low 0x03FF ((address - 0x2000) &&& 0x0FFF) 10 rfl
    omega
  have hindex : address.toNat % 0x1000 / 0x400 < 4 := by omega
  have hcell : m.cell address =
      m.tables[address.toNat % 0x1000 / 0x400] * 0x400 + address.toNat % 0x1000 % 0x400 := rfl
  -- the four tables begin at multiples of 1 KiB below 4 KiB
  have hlt := m.cell_lt address
  have hbase : (UInt16.ofNat (m.tables[address.toNat % 0x1000 / 0x400] * 0x400)).toNat =
      m.tables[address.toNat % 0x1000 / 0x400] * 0x400 := by
    rw [UInt16.toNat_ofNat']
    omega
  simp only [checkedCell, minus_word ha, ok_bind, hplace, lookup_ok _ hindex]
  rw [plus_word (by rw [hbase, hrest]; omega), ok_bind, UInt16.toNat_add, hbase, hrest, ← hcell]
  exact congrArg Except.ok (Nat.mod_eq_of_lt (by omega))

/-! ## Boards -/

namespace Board

def checkedRead (b : Board) (address : UInt16) : Checked UInt8 :=
  if address ≥ 0x8000 then do
    let offset ← b.circuit.checkedProgramOffset b.cartridge address
    b.cartridge.program.readAt offset
  else if address ≥ 0x6000 then do
    let place ← minus address 0x6000
    b.cartridge.work.readAt (place.toNat % workSize)
  else return 0

def checkedWrite (b : Board) (address : UInt16) (value : UInt8) : Checked Board :=
  if address ≥ 0x8000 then do
    let circuit ← b.circuit.checkedWrite b.cartridge address value
    return { b with circuit }
  else if address ≥ 0x6000 then do
    let place ← minus address 0x6000
    let work ← b.cartridge.work.writeAt (place.toNat % workSize) value
    return { b with cartridge := { b.cartridge with work } }
  else return b

def checkedReadPattern (b : Board) (address : UInt16) : Checked UInt8 := do
  let offset ← b.circuit.checkedPatternOffset b.cartridge address
  b.cartridge.patterns.readAt offset

def checkedWritePattern (b : Board) (address : UInt16) (value : UInt8) : Checked Board := do
  let offset ← b.circuit.checkedPatternOffset b.cartridge address
  let patterns ← b.cartridge.patterns.writeAt offset value
  return { b with cartridge := { b.cartridge with patterns } }

def checkedStep (line dot : UInt16) (rendering : Bool) (b : Board) : Checked Board :=
  if CountingCircuit.counts line dot rendering then
    match b.circuit with
    | .counting s => return { b with circuit := .counting (← s.checkedCountLine) }
    | _ => return b
  else return b

def checkedSetWork (b : Board) (data : Array UInt8) : Checked Board := do
  let work ← b.cartridge.work.writeAllAt 0 (data.toList.take workSize)
  return { b with cartridge := { b.cartridge with work } }

variable {b : Board}

/-- Work memory appears at an address that is a multiple of its size. -/
theorem workPlace {address : UInt16} (ha : 0x6000 ≤ address) :
    (address - 0x6000).toNat % workSize = address.toNat % 0x2000 := by
  have hle : 0x6000 ≤ address.toNat := UInt16.le_iff_toNat_le.1 ha
  rw [UInt16.toNat_sub_of_le _ _ ha, workSize]
  simp only [UInt16.reduceToNat]
  omega

theorem checkedRead_eq (h : b.InRange) (address : UInt16) :
    b.checkedRead address = .ok (b.read address) := by
  unfold checkedRead read
  by_cases hprogram : address ≥ 0x8000
  · rw [if_pos hprogram, if_pos hprogram, Circuit.checkedProgramOffset_eq h hprogram, ok_bind,
      Rom.readAt_eq]
  rw [if_neg hprogram, if_neg hprogram]
  by_cases hwork : address ≥ 0x6000
  · have hlt : address.toNat % 0x2000 < 0x2000 := Nat.mod_lt _ (by decide)
    rw [if_pos hwork, if_pos hwork, minus_word hwork, ok_bind, workPlace hwork,
      Memory.readAt_ok _ hlt, Memory.read_mod]
  · rw [if_neg hwork, if_neg hwork]
    rfl

theorem checkedWrite_eq (h : b.InRange) (address : UInt16) (value : UInt8) :
    b.checkedWrite address value = .ok (b.write address value) := by
  unfold checkedWrite write
  simp only []
  by_cases hprogram : address ≥ 0x8000
  · rw [if_pos hprogram, if_pos hprogram, Circuit.checkedWrite_eq h]
    rfl
  rw [if_neg hprogram, if_neg hprogram]
  by_cases hwork : address ≥ 0x6000
  · have hlt : address.toNat % 0x2000 < 0x2000 := Nat.mod_lt _ (by decide)
    rw [if_pos hwork, if_pos hwork, minus_word hwork, ok_bind, workPlace hwork,
      Memory.writeAt_ok _ hlt, Memory.write_mod]
    rfl
  · rw [if_neg hwork, if_neg hwork]
    rfl

theorem checkedReadPattern_eq (h : b.InRange) (address : UInt16) :
    b.checkedReadPattern address = .ok (b.readPattern address) := by
  rw [checkedReadPattern, Circuit.checkedPatternOffset_eq h, ok_bind, Patterns.readAt_eq]
  rfl

theorem checkedWritePattern_eq (h : b.InRange) (address : UInt16) (value : UInt8) :
    b.checkedWritePattern address value = .ok (b.writePattern address value) := by
  rw [checkedWritePattern, Circuit.checkedPatternOffset_eq h, ok_bind, Patterns.writeAt_eq]
  rfl

theorem checkedStep_eq (b : Board) (line dot : UInt16) (rendering : Bool) :
    b.checkedStep line dot rendering = .ok (b.step line dot rendering) := by
  rcases b with ⟨c, circuit⟩
  unfold checkedStep step
  split
  · cases circuit with
    | linear => rfl
    | serial s => rfl
    | counting s =>
        simp only [s.checkedCountLine_eq]
        rfl
  · rfl

theorem checkedSetWork_eq (b : Board) (data : Array UInt8) :
    b.checkedSetWork data = .ok (b.setWork data) := by
  have hfits : 0 + (data.toList.take workSize).length ≤ 0x2000 := by
    rw [List.length_take, workSize]
    omega
  rw [checkedSetWork, Memory.writeAllAt_ok _ hfits]
  rfl

end Board

end Cartridge

end Famicom
