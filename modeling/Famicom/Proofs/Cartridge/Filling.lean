import Famicom.Proofs.Cartridge.InRange

/-!
# Chips of whole units

A chip is filled out to a whole number of units when a cartridge is built, so that
banks of any size that divides a unit fill it without a rest:

* **size** — filling stops at the least multiple of the unit (`size_fillOut`), and
  does nothing to data that is one already (`fillOut_eq`);
* **cartridges** — so the memories of every cartridge that was built are whole
  (`whole_of_build`).
-/

namespace Famicom.Cartridge

theorem le_roundUp (n : Nat) {unit : Nat} (hunit : 0 < unit) : n ≤ roundUp n unit := by
  have hsplit := Nat.div_add_mod (n + unit - 1) unit
  have hrest := Nat.mod_lt (n + unit - 1) hunit
  rw [Nat.mul_comm] at hsplit
  unfold roundUp
  omega

theorem dvd_roundUp (n unit : Nat) : unit ∣ roundUp n unit := Nat.dvd_mul_left unit _

theorem roundUp_of_dvd {n unit : Nat} (hunit : 0 < unit) (h : unit ∣ n) : roundUp n unit = n := by
  obtain ⟨k, rfl⟩ := h
  have hquotient : (unit * k + unit - 1) / unit = k := by
    have hsplit : unit * k + unit - 1 = unit * k + (unit - 1) := by omega
    rw [hsplit, Nat.mul_add_div hunit, Nat.div_eq_of_lt (by omega), Nat.add_zero]
  rw [roundUp, hquotient, Nat.mul_comm]

/-- Filling stops exactly at the target. -/
theorem size_fillTo {data : Array UInt8} (hdata : 0 < data.size) (target : Nat)
    (filled : Array UInt8) (hfilled : filled.size ≤ target) :
    (fillTo data target filled).size = target := by
  fun_induction fillTo data target filled with
  | case1 filled h ih =>
      -- no more is appended than is missing
      apply ih
      simp only [Array.size_append, Array.size_extract]
      omega
  | case2 filled h => omega

theorem size_fillOut {data : Array UInt8} (hdata : 0 < data.size) {unit : Nat}
    (hunit : 0 < unit) : (fillOut data unit).size = roundUp data.size unit :=
  size_fillTo hdata _ _ (le_roundUp _ hunit)

/-- What is whole already stays as it is. -/
theorem fillOut_eq {data : Array UInt8} {unit : Nat} (hunit : 0 < unit)
    (h : unit ∣ data.size) : fillOut data unit = data := by
  rw [fillOut, roundUp_of_dvd hunit h, fillTo, if_neg (by omega)]

theorem romOf?_eq_some {data : Array UInt8} {unit : Nat} {chip : Rom}
    (h : romOf? data unit = some chip) : 0 < data.size ∧ chip.bytes = fillOut data unit := by
  unfold romOf? at h
  split at h
  · rename_i hdata
    cases h
    exact ⟨hdata, rfl⟩
  · cases h

/-- Whole data are the chip. -/
theorem romOf?_of_dvd {data : Array UInt8} {unit : Nat} (hdata : 0 < data.size)
    (hunit : 0 < unit) (h : unit ∣ data.size) : romOf? data unit = some ⟨data, hdata⟩ := by
  simp only [romOf?, dif_pos hdata, fillOut_eq hunit h]

theorem dvd_size_of_romOf? {data : Array UInt8} {unit : Nat} {chip : Rom} (hunit : 0 < unit)
    (h : romOf? data unit = some chip) : unit ∣ chip.size := by
  obtain ⟨hdata, hbytes⟩ := romOf?_eq_some h
  rw [Rom.size, hbytes, size_fillOut hdata hunit]
  exact dvd_roundUp _ _

/-- The memories are whole numbers of units. -/
structure Whole (c : Cartridge) : Prop where
  program : programUnit ∣ c.program.size
  patterns : patternUnit ∣ c.patterns.size

theorem Whole.programUnit_le {c : Cartridge} (h : c.Whole) : programUnit ≤ c.program.size :=
  Nat.le_of_dvd c.program.nonempty h.program

theorem Whole.patternUnit_le {c : Cartridge} (h : c.Whole) : patternUnit ≤ c.patterns.size :=
  Nat.le_of_dvd (Patterns.size_pos _) h.patterns

/-- What a cartridge consists of when it has been built. Its writable memory is
empty. -/
theorem build_eq_ok {program patterns : Array UInt8} {number : UInt8} {wiring : Mirroring}
    {battery : Bool} {c : Cartridge} (h : build program patterns number wiring battery = .ok c) :
    romOf? program programUnit = some c.program ∧ BoardKind.ofNumber? number = some c.kind ∧
      c.patterns = ((romOf? patterns patternUnit).elim (.ram (.filled 0)) .rom) ∧
      c.work = .filled 0 ∧ c.wiring = wiring ∧ c.battery = battery := by
  unfold build at h
  split at h
  · cases h
  rename_i chip hprogram
  split at h
  · cases h
  rename_i kind hkind
  cases h
  refine ⟨hprogram, hkind, ?_, rfl, rfl, rfl⟩
  cases romOf? patterns patternUnit <;> rfl

/-- A program and a board are enough to build a cartridge. -/
theorem exists_build {program : Array UInt8} {number : UInt8} {kind : BoardKind}
    (hprogram : 0 < program.size) (hkind : BoardKind.ofNumber? number = some kind)
    (patterns : Array UInt8) (wiring : Mirroring) (battery : Bool) :
    ∃ c, build program patterns number wiring battery = .ok c := by
  unfold build romOf?
  rw [dif_pos hprogram, hkind]
  exact ⟨_, rfl⟩

/-- Without a program the number of the board is not looked at. -/
theorem build_empty {program : Array UInt8} (hprogram : program.size = 0) (patterns : Array UInt8)
    (number : UInt8) (wiring : Mirroring) (battery : Bool) :
    build program patterns number wiring battery = .error .emptyProgram := by
  unfold build romOf?
  rw [dif_neg (by omega)]
  rfl

theorem build_unsupported {program : Array UInt8} {number : UInt8} (hprogram : 0 < program.size)
    (hkind : BoardKind.ofNumber? number = none) (patterns : Array UInt8) (wiring : Mirroring)
    (battery : Bool) :
    build program patterns number wiring battery = .error (.unsupportedBoard number) := by
  unfold build romOf?
  rw [dif_pos hprogram, hkind]
  rfl

/-- Every cartridge that was built is whole. -/
theorem whole_of_build {program patterns : Array UInt8} {number : UInt8} {wiring : Mirroring}
    {battery : Bool} {c : Cartridge} (h : build program patterns number wiring battery = .ok c) :
    c.Whole := by
  obtain ⟨hprogram, _, hpatterns, _⟩ := build_eq_ok h
  refine ⟨dvd_size_of_romOf? (by decide) hprogram, ?_⟩
  cases hchip : romOf? patterns patternUnit with
  | none =>
      rw [hpatterns, hchip]
      exact Nat.dvd_refl patternRamSize
  | some chip =>
      rw [hpatterns, hchip]
      exact dvd_size_of_romOf? (by decide) hchip

end Famicom.Cartridge
