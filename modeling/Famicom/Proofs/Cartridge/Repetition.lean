import Famicom.Proofs.Cartridge.Events
import Famicom.Proofs.Cartridge.Filling
import Mathlib.Logic.Function.Iterate
import Mathlib.Order.Bounds.Basic

/-!
# Repeated contents

A chip that is too small shows its contents repeatedly. It is filled out in rounds, each of
which copies the beginning of what is there already behind its end:

* **size** — what is to be filled is the least number of whole units (`isLeast_roundUp`);
* **rounds** — whatever has been filled consists of copies, all of them whole but the last
  one, and a round makes one copy more (`Copies.round`). So the rounds come to an end, and it
  does not matter that they copy copies (`fillTo_eq_rounds`);
* **chips** — the bytes of a chip are those of its contents over and over (`romOf?_repeats`).

`fillOut_repeats` says this of filling out, and of all that a board with such a chip reads.
-/

namespace Famicom.Cartridge

variable {data filled : Array UInt8} {unit target copies : Nat}

/-! ## Size -/

theorem roundUp_mono {m n : Nat} (h : m ≤ n) (unit : Nat) : roundUp m unit ≤ roundUp n unit :=
  Nat.mul_le_mul_right unit (Nat.div_le_div_right (by omega))

theorem isLeast_roundUp (n : Nat) (hunit : 0 < unit) :
    IsLeast {m | unit ∣ m ∧ n ≤ m} (roundUp n unit) := by
  constructor
  · exact ⟨dvd_roundUp n unit, le_roundUp n hunit⟩
  · rintro m ⟨hdvd, hle⟩
    have hround := roundUp_mono hle unit
    rwa [roundUp_of_dvd hunit hdvd] at hround

/-! ## Rounds -/

/-- A round appends the beginning of what is there: as much as is missing, but no more than
`original` bytes. -/
def fillRound (target original : Nat) (filled : Array UInt8) : Array UInt8 :=
  filled ++ filled.extract 0 (min original (target - filled.size))

/-- So many copies of the data, cut off at the target. -/
structure Copies (data : Array UInt8) (target copies : Nat) (filled : Array UInt8) : Prop where
  size : filled.size = min target (copies * data.size)
  byte : ∀ i < filled.size, filled[i]? = data[i % data.size]?

theorem copies_one (h : data.size ≤ target) : Copies data target 1 data where
  size := by omega
  byte i hi := by rw [Nat.mod_eq_of_lt hi]

namespace Copies

theorem size_le (h : Copies data target (copies + 1) filled) (hdata : data.size ≤ target) :
    data.size ≤ filled.size := by
  have hsize := h.size
  rw [Nat.succ_mul] at hsize
  omega

/-- As long as something is missing, the last copy is whole. -/
theorem size_eq (h : Copies data target copies filled) (hless : filled.size < target) :
    filled.size = copies * data.size := by
  have hsize := h.size
  omega

/-- The beginning of what is there is the beginning of the data. -/
theorem extract_eq (h : Copies data target (copies + 1) filled) (hdata : data.size ≤ target)
    {count : Nat} (hcount : count ≤ data.size) : filled.extract 0 count = data.extract 0 count := by
  have hle := h.size_le hdata
  apply Array.ext_getElem?
  intro i
  have hends : i < min count filled.size - 0 ↔ i < min count data.size - 0 := by omega
  rw [Array.getElem?_extract, Array.getElem?_extract, if_congr hends rfl rfl, Nat.zero_add]
  split
  · rename_i hi
    rw [h.byte i (by omega), Nat.mod_eq_of_lt (by omega)]
  · rfl

/-- A round makes one copy more. -/
theorem round (h : Copies data target (copies + 1) filled) (hdata : data.size ≤ target) :
    Copies data target (copies + 2) (fillRound target data.size filled) := by
  have hle := h.size_le hdata
  have hsize := h.size
  have hcopies : (copies + 2) * data.size = (copies + 1) * data.size + data.size :=
    Nat.succ_mul (copies + 1) data.size
  have happended : (fillRound target data.size filled).size =
      filled.size + min data.size (target - filled.size) := by
    rw [fillRound, Array.size_append, Array.size_extract]
    omega
  refine ⟨by omega, ?_⟩
  intro i hi
  by_cases hold : i < filled.size
  · rw [fillRound, Array.getElem?_append_left hold]
    exact h.byte i hold
  · -- what was there are whole copies, so the new byte is at the same place of its own copy
    have hwhole : filled.size = data.size * (copies + 1) := by
      rw [Nat.mul_comm]
      exact h.size_eq (by omega)
    have hsame : (i - filled.size) % data.size = i % data.size := by
      rw [hwhole]
      exact Nat.sub_mul_mod (by omega)
    rw [fillRound, Array.getElem?_append_right (by omega), Array.getElem?_extract,
      if_pos (by omega), Nat.zero_add, h.byte _ (by omega), hsame]

/-- While something is missing, filling out goes on with a round. -/
theorem fillTo_round (h : Copies data target (copies + 1) filled) (hpos : 0 < data.size)
    (hdata : data.size ≤ target) (hless : filled.size < target) :
    fillTo data target filled = fillTo data target (fillRound target data.size filled) := by
  rw [fillTo, if_pos ⟨hless, hpos⟩, fillRound, h.extract_eq hdata (Nat.min_le_left _ _)]

end Copies

/-- Every round leaves copies behind. -/
theorem copies_rounds (hdata : data.size ≤ target) (rounds : Nat) :
    Copies data target (rounds + 1) ((fillRound target data.size)^[rounds] data) := by
  induction rounds with
  | zero => exact copies_one hdata
  | succ rounds ih =>
      rw [Function.iterate_succ_apply']
      exact ih.round hdata

section Rounds

variable (hpos : 0 < data.size) (hdata : data.size ≤ target)
include hpos hdata

/-- Before the last round something is missing. -/
theorem size_rounds_lt {rounds : Nat} (h : rounds < (target - 1) / data.size) :
    ((fillRound target data.size)^[rounds] data).size < target := by
  have hcopies : (rounds + 1) * data.size ≤ target - 1 := (Nat.le_div_iff_mul_le hpos).1 h
  rw [(copies_rounds hdata rounds).size]
  omega

/-- Behind it nothing is. -/
theorem size_rounds_last :
    ((fillRound target data.size)^[(target - 1) / data.size] data).size = target := by
  have hcopies := Nat.lt_mul_div_succ (target - 1) hpos
  rw [(copies_rounds hdata _).size, Nat.mul_comm]
  omega

/-- Filling to a target is a number of rounds. -/
theorem fillTo_eq_rounds :
    fillTo data target data = (fillRound target data.size)^[(target - 1) / data.size] data := by
  have hrounds (rounds : Nat) (h : rounds ≤ (target - 1) / data.size) :
      fillTo data target data =
        fillTo data target ((fillRound target data.size)^[rounds] data) := by
    induction rounds with
    | zero => rfl
    | succ rounds ih =>
        rw [ih (Nat.le_of_succ_le h), Function.iterate_succ_apply']
        exact (copies_rounds hdata rounds).fillTo_round hpos hdata (size_rounds_lt hpos hdata h)
  have hlast := size_rounds_last hpos hdata
  rw [hrounds _ (Nat.le_refl _), fillTo, if_neg (by omega)]

end Rounds

theorem getElem?_fillOut (hpos : 0 < data.size) (hunit : 0 < unit) {i : Nat}
    (hi : i < roundUp data.size unit) : (fillOut data unit)[i]? = data[i % data.size]? := by
  have hdata := le_roundUp data.size hunit
  rw [fillOut, fillTo_eq_rounds hpos hdata]
  exact (copies_rounds hdata _).byte i (by rwa [size_rounds_last hpos hdata])

/-! ## Chips -/

theorem exists_romOf? (hpos : 0 < data.size) (unit : Nat) : ∃ chip, romOf? data unit = some chip :=
  ⟨_, dif_pos hpos⟩

/-- A chip shows its contents repeatedly, and behind its end begins anew. -/
theorem romOf?_repeats {chip : Rom} (hunit : 0 < unit) (h : romOf? data unit = some chip) :
    chip.size = roundUp data.size unit ∧
      ∀ offset, some (chip.read offset) = data[offset % chip.size % data.size]? := by
  obtain ⟨hpos, hbytes⟩ := romOf?_eq_some h
  have hsize : chip.size = roundUp data.size unit := by
    rw [Rom.size, hbytes, size_fillOut hpos hunit]
  refine ⟨hsize, fun offset => ?_⟩
  have hinside : offset % chip.size < chip.size := Nat.mod_lt offset chip.nonempty
  have hread : chip.bytes[offset % chip.size]? = some (chip.read offset) :=
    Array.getElem?_eq_getElem hinside
  rw [← hread, hbytes]
  exact getElem?_fillOut hpos hunit (Nat.lt_of_lt_of_eq hinside hsize)

/-- **Repeated contents.** Take any data but none, and any unit.

* They are filled out to the least number of whole units that holds them.
* This is done in rounds, each of which copies the beginning of what is there behind its end,
  as long as something is missing. The rounds come to an end, and leave what was asked for.
* The bytes are those of the data over and over.

A cartridge can be built from any program but none. Its chip of the program, and that of the
patterns if it has one, show these bytes, and so does everything that is read from the board,
whatever has happened to it. -/
theorem fillOut_repeats (hdata : 0 < data.size) (hunit : 0 < unit) :
    let target := roundUp data.size unit
    let round := fillRound target data.size
    let rounds := (target - 1) / data.size
    ((fillOut data unit).size = target ∧ IsLeast {m | unit ∣ m ∧ data.size ≤ m} target) ∧
    ((∀ k < rounds, (round^[k] data).size < target) ∧ (round^[rounds] data).size = target ∧
      fillOut data unit = round^[rounds] data) ∧
    (∀ i < target, (fillOut data unit)[i]? = data[i % data.size]?) ∧
    (∀ (program patterns : Array UInt8) (number : UInt8) (kind : BoardKind) (wiring : Mirroring)
        (battery : Bool),
      0 < program.size → BoardKind.ofNumber? number = some kind →
        ∃ c, build program patterns number wiring battery = .ok c ∧
          c.program.size = roundUp program.size programUnit ∧
          (∀ offset, some (c.program.read offset) =
            program[offset % c.program.size % program.size]?) ∧
          (0 < patterns.size →
            c.patterns.size = roundUp patterns.size patternUnit ∧
            ∀ offset, some (c.patterns.read offset) =
              patterns[offset % c.patterns.size % patterns.size]?) ∧
          ∀ (events : List Board.Event) (address : UInt16),
            let b := (Board.ofCartridge c).afterAll events
            (0x8000 ≤ address → some (b.read address) =
              program[b.circuit.programOffset address % c.program.size % program.size]?) ∧
            (0 < patterns.size → some (b.readPattern address) =
              patterns[b.circuit.patternOffset address % c.patterns.size % patterns.size]?)) := by
  intro target round rounds
  have hle : data.size ≤ target := le_roundUp data.size hunit
  have hleast := isLeast_roundUp data.size hunit
  refine ⟨⟨size_fillOut hdata hunit, hleast⟩, ⟨?_, size_rounds_last hdata hle, ?_⟩, ?_, ?_⟩
  · intro k hk
    exact size_rounds_lt hdata hle hk
  · exact fillTo_eq_rounds hdata hle
  · intro i hi
    exact getElem?_fillOut hdata hunit hi
  · intro program patterns number kind wiring battery hprogram hkind
    obtain ⟨c, hbuild⟩ := exists_build hprogram hkind patterns wiring battery
    obtain ⟨hrom, -, hpatterns, -⟩ := build_eq_ok hbuild
    obtain ⟨hsize, hread⟩ := romOf?_repeats (by decide) hrom
    have hchip (hne : 0 < patterns.size) : ∃ chip, c.patterns = .rom chip ∧
        romOf? patterns patternUnit = some chip := by
      obtain ⟨chip, hchip⟩ := exists_romOf? hne patternUnit
      rw [hchip] at hpatterns
      exact ⟨chip, hpatterns, hchip⟩
    refine ⟨c, hbuild, hsize, hread, ?_, ?_⟩
    · intro hne
      obtain ⟨chip, hc, hrom⟩ := hchip hne
      rw [hc]
      exact romOf?_repeats (by decide) hrom
    · intro events address b
      have hmake : b.make = (Board.ofCartridge c).make := Board.make_afterAll _ events
      constructor
      · intro hupper
        rw [Board.read, if_pos hupper, Board.program_eq_of_make hmake]
        exact hread _
      · intro hne
        obtain ⟨chip, hc, hrom⟩ := hchip hne
        rw [Board.readPattern, Board.patterns_eq_of_make hmake hc, hc]
        exact (romOf?_repeats (by decide) hrom).2 _

/-- Three bytes and units of eight: two more copies are made, the second of which is cut off. The
same bytes, and two bytes of patterns, make a cartridge. -/
theorem fillOut_repeats_three :
    let data : Array UInt8 := #[1, 2, 3]
    let patterns : Array UInt8 := #[7, 9]
    (0 < data.size ∧ 0 < 8) ∧
    fillOut data 8 = (fillRound 8 3)^[2] data ∧ (fillOut data 8)[7]? = some 2 ∧
    (BoardKind.ofNumber? 0 = some .linear ∧ 0 < patterns.size) ∧
    ∃ c, build data patterns 0 .horizontal false = .ok c ∧ c.program.size = 0x4000 ∧
      c.program.read 0x3FFF = 1 ∧ c.patterns.size = 0x2000 ∧ c.patterns.read 0x1FFF = 9 := by
  intro data patterns
  have hdata : 0 < data.size := by decide
  have hpatterns : 0 < patterns.size := by decide
  have hunit : 0 < 8 := by decide
  obtain ⟨-, ⟨-, -, hrounds⟩, hbytes, hbuilds⟩ := fillOut_repeats hdata hunit
  obtain ⟨c, hbuild, hsize, hprogram, hpattern, -⟩ :=
    hbuilds data patterns 0 .linear .horizontal false hdata rfl
  obtain ⟨hsizes, hread⟩ := hpattern hpatterns
  have hprogramSize : c.program.size = 0x4000 := hsize.trans (by decide)
  have hpatternSize : c.patterns.size = 0x2000 := hsizes.trans (by decide)
  have hfirst := hprogram 0x3FFF
  have hsecond := hread 0x1FFF
  rw [hprogramSize] at hfirst
  rw [hpatternSize] at hsecond
  have htwo : data[7 % data.size]? = some 2 := by decide
  have hone : data[0x3FFF % 0x4000 % data.size]? = some 1 := by decide
  have hnine : patterns[0x1FFF % 0x2000 % patterns.size]? = some 9 := by decide
  exact ⟨⟨hdata, hunit⟩, hrounds.trans (by decide), (hbytes 7 (by decide)).trans htwo,
    ⟨rfl, hpatterns⟩, c, hbuild, hprogramSize, Option.some.inj (hfirst.trans hone), hpatternSize,
    Option.some.inj (hsecond.trans hnine)⟩

end Famicom.Cartridge
