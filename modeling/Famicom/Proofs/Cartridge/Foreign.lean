import Famicom.Proofs.Cartridge.Banking

/-!
# The saved state of another cartridge

A board is to be loaded with states that were saved from a cartridge of its own
layout. This file says which states it takes:

* **check** — what is compared are the kinds of the boards and of the pattern
  memories, and where the windows begin (`Board.accepts_save_iff`). The sizes of
  program and patterns are not saved, so they are not compared;
* **larger** — a cartridge with at least as much memory takes every state of a
  smaller one (`load_of_le`), and so does any cartridge on the linear board, which
  has no windows to look at;
* **shorter** — on the counting board the last bank always stands in a window, so
  that a shorter program is noticed (`refused_of_shorter`).
-/

namespace Famicom.Cartridge

/-! ## The check of the windows -/

namespace Circuit

/-- Where the windows onto the program begin. The linear board has none. -/
def programWindows : Circuit → List Nat
  | linear => []
  | serial s => s.programStarts.toList
  | counting s => s.programStarts.toList

/-- Where the windows onto the patterns begin. -/
def patternWindows : Circuit → List Nat
  | linear => []
  | serial s => s.patternStarts.toList
  | counting s => s.patternStarts.toList

/-- The windows of a circuit begin inside the memory of a cartridge. -/
structure Inside (c : Cartridge) (circuit : Circuit) : Prop where
  program : ∀ start ∈ circuit.programWindows, start < c.program.size
  patterns : ∀ start ∈ circuit.patternWindows, start < c.patterns.size

theorem all_lt_iff {n : Nat} (starts : Vector Nat n) (size : Nat) :
    starts.all (· < size) = true ↔ ∀ start ∈ starts.toList, start < size := by
  rw [← Vector.all_toList, List.all_eq_true]
  simp only [decide_eq_true_eq]

/-- Of a saved circuit only its kind and its windows are looked at. -/
theorem accepts_iff {c : Cartridge} {current saved : Circuit} :
    Accepts c current saved ↔ saved.kind = current.kind ∧ saved.Inside c := by
  have hwindows {n k : Nat} {program : Vector Nat n} {patterns : Vector Nat k} :
      (program.all (· < c.program.size) && patterns.all (· < c.patterns.size)) = true ↔
        (∀ start ∈ program.toList, start < c.program.size) ∧
          ∀ start ∈ patterns.toList, start < c.patterns.size := by
    rw [Bool.and_eq_true, all_lt_iff, all_lt_iff]
  cases current <;> cases saved
  case linear.linear =>
    exact ⟨fun _ => ⟨rfl, ⟨nofun, nofun⟩⟩, fun _ => trivial⟩
  case serial.serial current s =>
    exact ⟨fun h => ⟨rfl, (hwindows.1 h).1, (hwindows.1 h).2⟩,
      fun h => hwindows.2 ⟨h.2.program, h.2.patterns⟩⟩
  case counting.counting current s =>
    exact ⟨fun h => ⟨rfl, (hwindows.1 h).1, (hwindows.1 h).2⟩,
      fun h => hwindows.2 ⟨h.2.program, h.2.patterns⟩⟩
  all_goals exact ⟨False.elim, fun h => BoardKind.noConfusion h.1⟩

/-- A circuit that keeps to a cartridge has its windows inside. -/
theorem InRange.inside {c : Cartridge} {circuit : Circuit} (h : circuit.InRange c) :
    circuit.Inside c := by
  have haccepts : Accepts c circuit circuit := by
    cases circuit with
    | linear => exact trivial
    | serial s => exact SerialCircuit.InRange.windows h
    | counting s => exact CountingCircuit.InRange.windows h
  exact (accepts_iff.1 haccepts).2

theorem Inside.of_le {c c' : Cartridge} {circuit : Circuit} (h : circuit.Inside c)
    (hprogram : c.program.size ≤ c'.program.size) (hpatterns : c.patterns.size ≤ c'.patterns.size) :
    circuit.Inside c' where
  program start hstart := Nat.lt_of_lt_of_le (h.program start hstart) hprogram
  patterns start hstart := Nat.lt_of_lt_of_le (h.patterns start hstart) hpatterns

end Circuit

/-! ## The check of the memories -/

/-- The saved memories have the sizes that are asked for, unless patterns are saved on
one side only. -/
theorem sameLayout_save_iff (c c' : Cartridge) :
    c'.SameLayout c.save ↔ c.patterns.isRam = c'.patterns.isRam := by
  have hwork : c.save.work.size = workSize := Memory.size_image c.work
  unfold SameLayout
  rw [and_iff_right hwork]
  unfold save
  cases hsaved : c.patterns <;> cases hthere : c'.patterns <;>
    simp [Patterns.isRam, Memory.size_image, patternRamSize]

/-- A program of whole units is not filled out. -/
theorem size_of_build {program patterns : Array UInt8} {number : UInt8} {wiring : Mirroring}
    {battery : Bool} {c : Cartridge} (h : build program patterns number wiring battery = .ok c)
    (hwhole : programUnit ∣ program.size) : c.program.size = program.size := by
  rw [Rom.size, (romOf?_eq_some (build_eq_ok h).1).2, fillOut_eq (by decide) hwhole]

namespace Board

/-- What a board takes of the boards that there are. -/
theorem accepts_save_iff (a b : Board) :
    b.Accepts a.save ↔ a.circuit.kind = b.circuit.kind ∧ a.circuit.Inside b.cartridge ∧
      a.cartridge.patterns.isRam = b.cartridge.patterns.isRam := by
  unfold Accepts save
  rw [Circuit.accepts_iff, sameLayout_save_iff, and_assoc]

/-! ## Histories -/

theorem InRange.after {b : Board} (h : b.InRange) (e : Event) : (b.after e).InRange := by
  cases e with
  | write address value => exact h.write address value
  | writePattern address value => exact h.writePattern address value
  | step line dot rendering => exact h.step line dot rendering
  | setWork data => exact h.setWork data
  | load saved =>
      show (load saved b).2.InRange
      obtain ⟨haccepts, hload⟩ | ⟨_, hload⟩ := load_cases saved b
      · rw [hload]
        exact inRange_loaded haccepts
      · rw [hload]
        exact h

theorem InRange.afterAll {b : Board} (h : b.InRange) (events : List Event) :
    (b.afterAll events).InRange := by
  induction events generalizing b with
  | nil => exact h
  | cons e rest ih => exact ih (h.after e)

/-- What a history leaves of a cartridge on its board. -/
theorem layout_history (c : Cartridge) (events : List Event) :
    let b := (ofCartridge c).afterAll events
    b.circuit.kind = c.kind ∧ b.cartridge.program.size = c.program.size ∧
      b.cartridge.patterns.size = c.patterns.size ∧
      b.cartridge.patterns.isRam = c.patterns.isRam := by
  intro b
  have hmake : b.make = (ofCartridge c).make := make_afterAll _ events
  have hpatterns := congrArg Make.patterns hmake
  refine ⟨?_, ?_, patterns_size_eq hmake, ?_⟩
  · exact (congrArg Make.circuit hmake).trans (Circuit.kind_powerOn c)
  · exact congrArg Rom.size (program_eq_of_make hmake)
  · -- patterns are soldered if and only if they cannot be written
    simp only [make, ofCartridge] at hpatterns
    cases hb : b.cartridge.patterns <;> cases hc : c.patterns <;>
      simp_all [Patterns.isRam]

/-- What a cartridge on its board takes of another one, whatever was done with them. -/
theorem accepts_history_iff (c c' : Cartridge) (events events' : List Event) :
    ((ofCartridge c').afterAll events').Accepts ((ofCartridge c).afterAll events).save ↔
      c.kind = c'.kind ∧ ((ofCartridge c).afterAll events).circuit.Inside c' ∧
        c.patterns.isRam = c'.patterns.isRam := by
  obtain ⟨hkind, -, -, hram⟩ := layout_history c events
  obtain ⟨hkind', hprogram', hpatterns', hram'⟩ := layout_history c' events'
  rw [accepts_save_iff, hkind, hkind', hram, hram']
  refine and_congr_right fun _ => and_congr_left fun _ => ?_
  exact ⟨fun h => h.of_le (Nat.le_of_eq hprogram') (Nat.le_of_eq hpatterns'),
    fun h => h.of_le (Nat.le_of_eq hprogram'.symm) (Nat.le_of_eq hpatterns'.symm)⟩

/-! ## Larger and shorter programs -/

/-- A cartridge with at least as much memory takes every state of a smaller one. -/
theorem load_of_le {c c' : Cartridge} (hkind : c.kind = c'.kind)
    (hram : c.patterns.isRam = c'.patterns.isRam) (hprogram : c.program.size ≤ c'.program.size)
    (hpatterns : c.patterns.size ≤ c'.patterns.size) (events events' : List Event) :
    let a := (ofCartridge c).afterAll events
    let b := (ofCartridge c').afterAll events'
    load a.save b = (.ok (), b.loaded a.save) := by
  intro a b
  obtain ⟨-, hprogram', hpatterns', -⟩ := layout_history c events
  have hrange : a.InRange := (inRange_ofCartridge c).afterAll events
  have hinside : a.circuit.Inside c' :=
    (Circuit.InRange.inside hrange).of_le (Nat.le_trans (Nat.le_of_eq hprogram') hprogram)
      (Nat.le_trans (Nat.le_of_eq hpatterns') hpatterns)
  exact load_accepted ((accepts_history_iff c c' events events').2 ⟨hkind, hinside, hram⟩)

/-- The last of several whole banks ends with the memory. -/
theorem bankStart_last {size bank : Nat} (hwhole : bank ∣ size) (hsize : 0 < size) :
    bankStart size bank (-1) + bank = size := by
  obtain ⟨count, rfl⟩ := hwhole
  have hbank : 0 < bank := Nat.pos_of_mul_pos_right hsize
  have hcount : 0 < count := Nat.pos_of_mul_pos_left hsize
  have hstart := bankStart_neg hbank 1 Nat.one_pos
    (by simpa using Nat.mul_le_mul_left bank hcount : 1 * bank ≤ bank * count)
  rw [Nat.mul_div_cancel_left _ hbank, Nat.mod_eq_of_lt (by omega)] at hstart
  calc bankStart (bank * count) bank (-1) + bank
      = (count - 1) * bank + bank := congrArg (· + bank) hstart
    _ = (count - 1 + 1) * bank := (Nat.succ_mul _ _).symm
    _ = bank * count := by rw [Nat.sub_add_cancel hcount, Nat.mul_comm]

/-- On the counting board the last bank of the program is never out of sight. -/
theorem last_mem_programWindows {c : Cartridge} {moved : Bool} {s : CountingCircuit}
    (h : s.Located c moved) :
    bankStart c.program.size CountingCircuit.programBank (-1) ∈ s.programStarts.toList := by
  have hlast : s.programStarts[3] = bankStart c.program.size CountingCircuit.programBank (-1) := by
    cases moved with
    | true =>
        rw [← h.located rfl]
        show (s.programBanks.map (bankStart c.program.size CountingCircuit.programBank))[3] = _
        rw [Vector.getElem_map, CountingCircuit.programBanks]
        split <;> rfl
    | false =>
        rw [(h.resting rfl).1, CountingCircuit.powerOn]
        exact Vector.getElem_map _ (by decide)
  rw [← hlast, Vector.mem_toList_iff]
  exact Vector.getElem_mem _

/-- A cartridge with the counting board takes no state of one with a longer program,
unless that was itself loaded. -/
theorem refused_of_shorter {c c' : Cartridge} (hkind : c.kind = .counting) (hc : c.Whole)
    (hc' : c'.Whole) (hshorter : c'.program.size < c.program.size) (events events' : List Event)
    (hloads : ∀ e ∈ events, ¬ e.Loads) :
    let a := (ofCartridge c).afterAll events
    let b := (ofCartridge c').afterAll events'
    load a.save b = (.error .stateMismatch, b) := by
  intro a b
  apply load_refused
  rw [accepts_history_iff]
  rintro ⟨-, hinside, -⟩
  obtain ⟨hcircuit, hsize, -, -⟩ := layout_history c events
  have hcounting : ∃ s, a.circuit = .counting s := by
    cases h : a.circuit with
    | counting s => exact ⟨s, rfl⟩
    | _ => exact BoardKind.noConfusion (hkind.symm.trans (hcircuit.symm.trans (congrArg _ h)))
  obtain ⟨s, hs⟩ := hcounting
  have hlocated : s.Located a.cartridge (events.any Event.selectsBanks) := by
    have h : a.circuit.Located a.cartridge (events.any Event.selectsBanks) :=
      located_history c events hloads
    rwa [hs] at h
  -- the window of the last bank begins behind the shorter program
  have hlast := last_mem_programWindows hlocated
  rw [hsize] at hlast
  have hbehind := hinside.program _ (by rw [hs]; exact hlast)
  have hlastBank : bankStart c.program.size CountingCircuit.programBank (-1) +
      CountingCircuit.programBank = c.program.size :=
    bankStart_last (Nat.dvd_trans (by decide) hc.program) c.program.nonempty
  have hgap : programUnit ≤ c.program.size - c'.program.size :=
    Nat.le_of_dvd (by omega) (Nat.dvd_sub hc.program hc'.program)
  have hunit : CountingCircuit.programBank ≤ programUnit := by decide
  omega

/-! ## Foreign states -/

/-- **What a foreign state is refused for.** Take two cartridges on their boards,
whatever was done with them. The second one refuses the state of the first if the
boards are of two kinds, if the patterns of one can be written and those of the other
cannot, or if at that moment a window of the first begins where the second has no
memory. Otherwise it takes the state, also where program and patterns are not of the
sizes that they were saved with. -/
theorem load_foreign (c c' : Cartridge) (events events' : List Event) :
    let a := (ofCartridge c).afterAll events
    let b := (ofCartridge c').afterAll events'
    let foreign := c.kind ≠ c'.kind ∨ c.patterns.isRam ≠ c'.patterns.isRam ∨
      (∃ start ∈ a.circuit.programWindows, c'.program.size ≤ start) ∨
      ∃ start ∈ a.circuit.patternWindows, c'.patterns.size ≤ start
    (foreign → load a.save b = (.error .stateMismatch, b)) ∧
      (¬ foreign → load a.save b = (.ok (), b.loaded a.save)) := by
  intro a b foreign
  have haccepts : b.Accepts a.save ↔ ¬ foreign := by
    rw [accepts_history_iff]
    constructor
    · rintro ⟨hkind, hinside, hram⟩
      rintro (hdiffers | hdiffers | ⟨start, hstart, hout⟩ | ⟨start, hstart, hout⟩)
      · exact hdiffers hkind
      · exact hdiffers hram
      · exact absurd (hinside.program start hstart) (Nat.not_lt.2 hout)
      · exact absurd (hinside.patterns start hstart) (Nat.not_lt.2 hout)
    · intro hown
      simp only [foreign, not_or, not_not, not_exists, not_and, Nat.not_le] at hown
      obtain ⟨hkind, hram, hprogram, hpatterns⟩ := hown
      exact ⟨hkind, ⟨hprogram, hpatterns⟩, hram⟩
  refine ⟨?_, ?_⟩
  · intro hforeign
    exact load_refused fun h => haccepts.1 h hforeign
  · intro hown
    exact load_accepted (haccepts.2 hown)

/-- On the linear board a program of twice the size takes the state of the shorter
one. -/
theorem load_foreign_linear :
    let short := Array.replicate 0x4000 (0xEA : UInt8)
    let long := Array.replicate 0x8000 (0xEA : UInt8)
    ∃ c c', build short #[] 0 .horizontal false = .ok c ∧
      build long #[] 0 .horizontal false = .ok c' ∧
      c.program.size = 0x4000 ∧ c'.program.size = 0x8000 ∧
      (load (ofCartridge c).save (ofCartridge c')).1 = .ok () := by
  intro short long
  have hshort : short.size = 0x4000 := Array.size_replicate
  have hlong : long.size = 0x8000 := Array.size_replicate
  have hlinear : BoardKind.ofNumber? 0 = some .linear := rfl
  obtain ⟨c, hc⟩ := exists_build (by omega : 0 < short.size) hlinear #[] .horizontal false
  obtain ⟨c', hc'⟩ := exists_build (by omega : 0 < long.size) hlinear #[] .horizontal false
  have hsize : c.program.size = 0x4000 := (size_of_build hc (by rw [hshort]; decide)).trans hshort
  have hsize' : c'.program.size = 0x8000 := (size_of_build hc' (by rw [hlong]; decide)).trans hlong
  obtain ⟨-, hkind, hpatterns, -⟩ := build_eq_ok hc
  obtain ⟨-, hkind', hpatterns', -⟩ := build_eq_ok hc'
  have hsame : c.patterns = c'.patterns := hpatterns.trans hpatterns'.symm
  have hkinds : c.kind = c'.kind := Option.some.inj (hkind.symm.trans hkind')
  have hram : c.patterns.isRam = c'.patterns.isRam := congrArg Patterns.isRam hsame
  have hload := load_of_le hkinds hram (by omega) (Nat.le_of_eq (congrArg Patterns.size hsame)) [] []
  exact ⟨c, c', hc, hc', hsize, hsize', congrArg Prod.fst hload⟩

end Board

end Famicom.Cartridge
