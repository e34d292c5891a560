import Famicom.Proofs.Cartridge.Banking
import Famicom.Proofs.Checked

/-!
# What a cartridge keeps

The program and read-only patterns never change, not even by loading. The two writable
memories keep what was written last, although a byte of the patterns can be written
through one window and read through another one, with the banks switched in between:

* **chips** — a chip that is written many times returns the last byte for each of its
  cells (`Memory.read_writeEach`);
* **events** — without imports, a memory of a board is the chip at the beginning with
  the writes of the history in it (`Board.work_afterAll`, `Board.patterns_afterAll`).

`memory_retained` says what is read.
-/

namespace Famicom

/-! ## The last write -/

section LastWritten

variable {κ α : Type} [DecidableEq κ]

/-- What was written last to a place, the first write in front. -/
def lastWritten (writes : List (κ × α)) (place : κ) : Option α := writes.reverse.lookup place

theorem lastWritten_cons (w : κ × α) (writes : List (κ × α)) (place : κ) :
    lastWritten (w :: writes) place =
      (lastWritten writes place).or (if w.1 = place then some w.2 else none) := by
  rw [lastWritten, List.reverse_cons, List.lookup_append, ← lastWritten]
  congr 1
  rcases w with ⟨key, value⟩
  rw [List.lookup_cons, List.lookup_nil]
  by_cases h : key = place
  · simp [h]
  · simp [h, beq_false_of_ne (Ne.symm h)]

end LastWritten

namespace Memory

variable {κ α : Type} {n : Nat} [ChipSize n]

/-- The chip after writes to places that have a cell each. -/
def writeEach (m : Memory α n) (cell : κ → Nat) (writes : List (κ × α)) : Memory α n :=
  writes.foldl (fun m w => m.write (cell w.1) w.2) m

theorem writeEach_append (m : Memory α n) (cell : κ → Nat) (first second : List (κ × α)) :
    m.writeEach cell (first ++ second) = (m.writeEach cell first).writeEach cell second :=
  List.foldl_append

/-- A read returns what was written last to its place, as long as no other place that
was written has the same cell. -/
theorem read_writeEach [DecidableEq κ] (m : Memory α n) {cell : κ → Nat}
    {writes : List (κ × α)} {place : κ}
    (hcells : ∀ w ∈ writes, cell w.1 % n = cell place % n → w.1 = place) :
    (m.writeEach cell writes).read (cell place) =
      (lastWritten writes place).getD (m.read (cell place)) := by
  induction writes generalizing m with
  | nil => rfl
  | cons w rest ih =>
      have hcell : cell w.1 % n = cell place % n ↔ w.1 = place :=
        ⟨hcells w List.mem_cons_self, fun h => h ▸ rfl⟩
      have hrest := ih (m.write (cell w.1) w.2) fun w hw => hcells w (List.mem_cons_of_mem _ hw)
      rw [writeEach, List.foldl_cons, ← writeEach, hrest, read_write, lastWritten_cons]
      simp only [hcell]
      cases lastWritten rest place with
      | some value => rfl
      | none => split <;> rfl

end Memory

end Famicom

namespace Famicom.Cartridge

/-- The cell of writable pattern memory behind an address, by the registers. -/
def Circuit.patternCell (moved : Bool) (address : UInt16) (circuit : Circuit) :
    Fin patternRamSize :=
  let place := address.toNat % 0x2000
  let bank := circuit.bankOfPatterns moved place
  have hsize := circuit.bankOfPatterns_size moved place
  ⟨bank.index patternRamSize place, Bank.index_lt hsize.1 hsize.2 place⟩

namespace Board

namespace Event

/-- A write of the processor to work memory. -/
def workWrite? : Event → Option (UInt16 × UInt8)
  | .write address value =>
    if 0x6000 ≤ address ∧ address < 0x8000 then some (address, value) else none
  | _ => none

/-- A write of the picture unit, with the cell that it goes to. -/
def patternWrite? (moved : Bool) (circuit : Circuit) : Event → Option (Fin patternRamSize × UInt8)
  | .writePattern address value => some (circuit.patternCell moved address, value)
  | _ => none

end Event

/-- The writes to work memory in a history. -/
def workWrites (events : List Event) : List (UInt16 × UInt8) := events.filterMap Event.workWrite?

/-- The writes to patterns in a history, each with the cell that the registers gave it at
its time. -/
def patternWrites (moved : Bool) (b : Board) : List Event → List (Fin patternRamSize × UInt8)
  | [] => []
  | e :: rest =>
    (e.patternWrite? moved b.circuit).toList ++
      patternWrites (moved || e.selectsBanks) (b.after e) rest

/-- Dots are counted in the circuit. -/
theorem cartridge_step (b : Board) (line dot : UInt16) (rendering : Bool) :
    (b.step line dot rendering).cartridge = b.cartridge := by
  unfold Board.step
  split
  · split <;> rfl
  · rfl

/-! ## Work memory -/

theorem work_after (b : Board) {e : Event} (he : ¬ e.Imports) :
    (b.after e).cartridge.work = b.cartridge.work.writeEach UInt16.toNat e.workWrite?.toList := by
  cases e with
  | write address value =>
      show (b.write address value).cartridge.work = _
      unfold Board.write Event.workWrite?
      by_cases hupper : 0x8000 ≤ address
      · have habove : ¬ (0x6000 ≤ address ∧ address < 0x8000) :=
          fun h => UInt16.not_lt.2 hupper h.2
        simp only [ge_iff_le, if_pos hupper, if_neg habove]
        rfl
      · have hlt : address < 0x8000 := UInt16.not_le.1 hupper
        by_cases hwork : 0x6000 ≤ address
        · simp only [ge_iff_le, if_neg hupper, if_pos hwork, if_pos (And.intro hwork hlt)]
          rfl
        · have hbelow : ¬ (0x6000 ≤ address ∧ address < 0x8000) := fun h => hwork h.1
          simp only [ge_iff_le, if_neg hupper, if_neg hwork, if_neg hbelow]
          rfl
  | writePattern address value => rfl
  | step line dot rendering => exact congrArg Cartridge.work (cartridge_step b line dot rendering)
  | setWork data => exact absurd trivial he
  | load saved => exact absurd trivial he

/-- **A history.** Work memory is what it was, with the writes in it. -/
theorem work_afterAll (b : Board) {events : List Event} (himports : ∀ e ∈ events, ¬ e.Imports) :
    (b.afterAll events).cartridge.work =
      b.cartridge.work.writeEach UInt16.toNat (workWrites events) := by
  induction events generalizing b with
  | nil => rfl
  | cons e rest ih =>
      have hcons : workWrites (e :: rest) = e.workWrite?.toList ++ workWrites rest := by
        rw [workWrites, List.filterMap_cons]
        cases e.workWrite? <;> rfl
      rw [afterAll_cons, ih _ fun e he => himports e (List.mem_cons_of_mem _ he),
        work_after b (himports e List.mem_cons_self), hcons, Memory.writeEach_append]

theorem mem_workWrites {events : List Event} {w : UInt16 × UInt8} (hw : w ∈ workWrites events) :
    0x6000 ≤ w.1 ∧ w.1 < 0x8000 := by
  obtain ⟨e, -, he⟩ := List.mem_filterMap.1 hw
  cases e with
  | write address value =>
      simp only [Event.workWrite?, Option.ite_none_right_eq_some, Option.some.injEq] at he
      obtain ⟨hwork, rfl⟩ := he
      exact hwork
  | _ => cases he

/-- In the space of 8 KiB there is one address to each cell. -/
theorem workCell_inj {a a' : UInt16} (h : 0x6000 ≤ a ∧ a < 0x8000)
    (h' : 0x6000 ≤ a' ∧ a' < 0x8000) (hcell : a.toNat % 0x2000 = a'.toNat % 0x2000) : a = a' := by
  simp only [UInt16.le_iff_toNat_le, UInt16.lt_iff_toNat_lt, UInt16.reduceToNat] at h h'
  apply UInt16.toNat_inj.1
  omega

/-! ## Patterns -/

variable {b : Board} {moved : Bool} {chip : Memory UInt8 0x2000}

theorem patternCell_eq (h : b.Located moved) (hchip : b.cartridge.patterns = .ram chip)
    (address : UInt16) :
    b.circuit.patternOffset address % 0x2000 = (b.circuit.patternCell moved address).val := by
  have hunit : patternUnit ≤ b.cartridge.patterns.size := by
    rw [hchip]
    exact Nat.le_refl _
  have hoffset := Circuit.Located.patternOffset_mod h hunit address
  rwa [hchip] at hoffset

theorem patterns_write (b : Board) (address : UInt16) (value : UInt8) :
    (b.write address value).cartridge.patterns = b.cartridge.patterns := by
  rcases b with ⟨c, circuit⟩
  simp only [Board.write]
  split
  · rfl
  · split <;> rfl

theorem patterns_after (h : b.Located moved) (hchip : b.cartridge.patterns = .ram chip)
    {e : Event} (he : ¬ e.Imports) :
    (b.after e).cartridge.patterns =
      .ram (chip.writeEach Fin.val (e.patternWrite? moved b.circuit).toList) := by
  cases e with
  | write address value =>
      exact (patterns_write b address value).trans hchip
  | writePattern address value =>
      show b.cartridge.patterns.write (b.circuit.patternOffset address) value = _
      rw [hchip, Patterns.write, ← Memory.write_mod, patternCell_eq h hchip]
      rfl
  | step line dot rendering =>
      exact (congrArg Cartridge.patterns (cartridge_step b line dot rendering)).trans hchip
  | setWork data => exact absurd trivial he
  | load saved => exact absurd trivial he

/-- **A history.** Writable patterns are what they were, with the writes in the cells
that the registers gave them. -/
theorem patterns_afterAll (h : b.Located moved) (hchip : b.cartridge.patterns = .ram chip)
    {events : List Event} (himports : ∀ e ∈ events, ¬ e.Imports) :
    (b.afterAll events).cartridge.patterns =
      .ram (chip.writeEach Fin.val (b.patternWrites moved events)) := by
  induction events generalizing b moved chip with
  | nil => exact hchip
  | cons e rest ih =>
      have he := himports e List.mem_cons_self
      have hnext := h.after (mt Event.Loads.imports he)
      rw [afterAll_cons, ih hnext (patterns_after h hchip he) fun e he =>
        himports e (List.mem_cons_of_mem _ he), patternWrites, Memory.writeEach_append]

end Board

/-- **Memory is kept.** Take a cartridge that was built, on its board, and any history.
The program and read-only patterns stay. If nothing is imported, a read of work memory
returns the byte that was written last to its address, and with writable patterns a read
of the picture unit returns the byte that was written last to its cell, through whatever
window and whatever banks; where nothing was written it is zero. -/
theorem memory_retained {program patterns : Array UInt8} {number : UInt8} {wiring : Mirroring}
    {battery : Bool} {c : Cartridge} (hbuild : build program patterns number wiring battery = .ok c)
    (events : List Board.Event) :
    let b := (Board.ofCartridge c).afterAll events
    b.cartridge.program = c.program ∧
    (∀ chip, c.patterns = .rom chip → b.cartridge.patterns = .rom chip) ∧
    ((∀ e ∈ events, ¬ e.Imports) →
      (∀ address, 0x6000 ≤ address → address < 0x8000 →
        b.read address = (lastWritten (Board.workWrites events) address).getD 0) ∧
      (c.patterns.isRam = true → ∀ address,
        b.readPattern address =
          (lastWritten ((Board.ofCartridge c).patternWrites false events)
            (b.circuit.patternCell (events.any Board.Event.selectsBanks) address)).getD 0)) := by
  intro b
  have hmake : b.make = (Board.ofCartridge c).make := Board.make_afterAll _ events
  refine ⟨Board.program_eq_of_make hmake, fun chip => Board.patterns_eq_of_make hmake,
    fun himports => ⟨?_, ?_⟩⟩
  · intro address hfrom hto
    have hwork : b.cartridge.work =
        (Memory.filled 0).writeEach UInt16.toNat (Board.workWrites events) := by
      rw [← (build_eq_ok hbuild).2.2.2.1]
      exact Board.work_afterAll _ himports
    have hcells (w) (hw : w ∈ Board.workWrites events) :
        w.1.toNat % 0x2000 = address.toNat % 0x2000 → w.1 = address :=
      Board.workCell_inj (Board.mem_workWrites hw) ⟨hfrom, hto⟩
    rw [Board.read, if_neg (UInt16.not_le.2 hto), if_pos hfrom, hwork,
      Memory.read_writeEach _ hcells, Memory.read_filled]
  · intro hram address
    have hchip : c.patterns = .ram (.filled 0) := by
      have hpatterns := (build_eq_ok hbuild).2.2.1
      cases hrom : romOf? patterns patternUnit with
      | none => rw [hpatterns, hrom]; rfl
      | some chip =>
          rw [hpatterns, hrom] at hram
          cases hram
    have hlocated := Board.located_history c events fun e he =>
      mt Board.Event.Loads.imports (himports e he)
    have hfresh : (Board.ofCartridge c).Located false := Circuit.located_powerOn c
    have hpatterns := Board.patterns_afterAll hfresh hchip himports
    have hcells (w) (_ : w ∈ (Board.ofCartridge c).patternWrites false events)
        (hcell : w.1.val % 0x2000 = (b.circuit.patternCell
          (events.any Board.Event.selectsBanks) address).val % 0x2000) :
        w.1 = b.circuit.patternCell (events.any Board.Event.selectsBanks) address := by
      exact Fin.ext ((Nat.mod_eq_of_lt w.1.isLt).symm.trans
        (hcell.trans (Nat.mod_eq_of_lt (Fin.isLt _))))
    show b.cartridge.patterns.read (b.circuit.patternOffset address) = _
    rw [hpatterns, Patterns.read, ← Memory.read_mod, Board.patternCell_eq hlocated hpatterns,
      Memory.read_writeEach _ hcells, Memory.read_filled]

/-- At power-on the last window shows the first bank, and bank 8 among eight banks is the
first one again. What is written in between goes elsewhere. -/
theorem memory_retained_wrapped :
    let events : List Board.Event :=
      [.writePattern 0x1C05 7, .write 0x8000 2, .write 0x8001 3, .writePattern 0x1005 9,
        .write 0x8001 8]
    ∃ c, build #[0] #[] 4 .vertical false = .ok c ∧ (∀ e ∈ events, ¬ e.Imports) ∧
      c.patterns.isRam = true ∧
      ((Board.ofCartridge c).afterAll events).readPattern 0x1005 = 7 := by
  intro events
  have hplain : ∀ e ∈ events, ¬ e.Imports := by simp [events, Board.Event.Imports]
  obtain ⟨c, hc⟩ : ∃ c : Cartridge, c =
      { program := ⟨fillOut #[0] programUnit, size_le_size_fillTo #[0] _ #[0]⟩
        patterns := .ram (.filled 0), work := .filled 0, kind := .counting, wiring := .vertical
        battery := false } := ⟨_, rfl⟩
  have hbuild : build #[0] #[] 4 .vertical false = .ok c := hc ▸ rfl
  have hram : c.patterns.isRam = true := hc ▸ rfl
  refine ⟨c, hbuild, hplain, hram, ?_⟩
  have hcell : ((Board.ofCartridge c).afterAll events).circuit.patternCell
      (events.any Board.Event.selectsBanks) 0x1005 = ⟨5, by decide⟩ := by
    rw [hc]
    decide +kernel
  have hread := ((memory_retained hbuild events).2.2 hplain).2 hram 0x1005
  rw [hcell, hc] at hread
  rw [hc, hread]
  decide +kernel

end Famicom.Cartridge
